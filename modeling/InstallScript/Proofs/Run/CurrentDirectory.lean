import InstallScript.Proofs.Files.PathMeaning
import InstallScript.Proofs.Run.Confinement

/-!
The current directory. To change it by one path and to resolve another from there is to resolve the
two in one (`Context.resolve_join_iff`), so a context is at all times where the paths of its changes
lead. A function of a host changes the directory by paths or leaves it (`Host.MovesByPaths`), and
then every run does (`Session.directory_moved`): it never comes to a directory that is not clean.
-/

namespace InstallScript

/-! ## Joined paths -/

/-- The path does not end in a separator. -/
def EndsInName (path : String) : Prop := ∀ c ∈ path.toList.getLast?, isSeparator c = false

/-- The path does not begin with a separator. -/
def StartsInName (path : String) : Prop := ∀ c ∈ path.toList.head?, isSeparator c = false

theorem toList_join (p q : String) : (p ++ "/" ++ q).toList = p.toList ++ '/' :: q.toList := by
  rw [String.toList_append, String.toList_append, List.append_assoc]
  rfl

theorem componentsOf_join (p q : String) :
    componentsOf (p ++ "/" ++ q) = componentsOf p ++ componentsOf q := by
  unfold componentsOf
  rw [toList_join, List.splitOnP_append_cons _ _ rfl, List.map_append, List.filter_append]

theorem leadingSeparators_eq_zero {path : String} (starts : StartsInName path) :
    leadingSeparators path = 0 := by
  unfold leadingSeparators
  unfold StartsInName at starts
  cases eq : path.toList with
  | nil => rfl
  | cons c cs =>
    rw [eq] at starts
    rw [List.takeWhile_cons_of_neg (Bool.eq_false_iff.1 (starts c rfl))]
    rfl

/-- The separators at the head of a path end before a name in it does. -/
theorem leadingSeparators_join {p : String} (nonempty : p ≠ "") (ends : EndsInName p) (q : String) :
    leadingSeparators (p ++ "/" ++ q) = leadingSeparators p := by
  have nonempty : p.toList ≠ [] := mt String.toList_eq_nil_iff.1 nonempty
  have name : ¬ isSeparator (p.toList.getLast nonempty) = true :=
    Bool.eq_false_iff.1 (ends _ (List.getLast?_eq_some_getLast nonempty))
  -- If all of the path were separators, so would be its last character.
  have shorter : (p.toList.takeWhile isSeparator).length ≠ p.toList.length := by
    intro same
    have all : p.toList.takeWhile isSeparator = p.toList :=
      (List.takeWhile_prefix isSeparator).eq_of_length same
    have separators : p.toList.all isSeparator = true := all ▸ List.all_takeWhile
    exact name (List.all_eq_true.1 separators _ (List.getLast_mem nonempty))
  unfold leadingSeparators
  rw [toList_join, List.takeWhile_append, if_neg shorter]

theorem null_join_iff {p q : String} :
    '\x00' ∉ (p ++ "/" ++ q).toList ↔ '\x00' ∉ p.toList ∧ '\x00' ∉ q.toList := by
  rw [toList_join, List.mem_append, List.mem_cons, not_or, not_or]
  exact and_congr_right fun _ => and_iff_right (by decide)

/-- A path that goes on behind another leads from where the other one leads. -/
theorem resolvePath_join_iff {p q : String} (nonempty : p ≠ "") (ends : EndsInName p)
    (starts : StartsInName q) {directory parts : List String} :
    resolvePath (p ++ "/" ++ q) directory = .ok parts ↔
      ∃ halfway, resolvePath p directory = .ok halfway ∧ resolvePath q halfway = .ok parts := by
  have relative : leadingSeparators q = 0 := leadingSeparators_eq_zero starts
  have same : leadingSeparators (p ++ "/" ++ q) = leadingSeparators p :=
    leadingSeparators_join nonempty ends q
  simp only [resolvePath_eq_ok_iff, startOf, same, relative, componentsOf_join, leads_append_iff,
    null_join_iff, if_true]
  constructor
  · rintro ⟨⟨absent, absent'⟩, single, halfway, first, second⟩
    exact ⟨halfway, ⟨absent, single, first⟩, absent', nofun, second⟩
  · rintro ⟨halfway, ⟨absent, single, first⟩, absent', -, second⟩
    exact ⟨⟨absent, absent'⟩, single, halfway, first, second⟩

/-! ## Changes of the directory -/

namespace Context

/-- The context after a change of the directory that may be refused. -/
def attempt (c : Context) (path : String) : Context :=
  match c.changeDirectory path with
  | .ok moved => moved
  | .error _ => c

variable {c moved : Context} {path : String}

theorem changeDirectory_eq_ok_iff : c.changeDirectory path = .ok moved ↔
    ∃ parts, c.resolve path = .ok parts ∧ moved = { c with directory := parts } := by
  unfold changeDirectory
  cases c.resolve path with
  | error fault => exact ⟨nofun, nofun⟩
  | ok parts =>
    constructor
    · rintro ⟨⟩
      exact ⟨parts, rfl, rfl⟩
    · rintro ⟨_, ⟨⟩, rfl⟩
      rfl

theorem attempt_of_error {fault : PathFault} (refused : c.changeDirectory path = .error fault) :
    c.attempt path = c := by
  rw [attempt, refused]

theorem attempt_of_ok (changes : c.changeDirectory path = .ok moved) : c.attempt path = moved := by
  rw [attempt, changes]

/-- A change and what is resolved behind it are one path. -/
theorem resolve_join_iff {p q : String} (nonempty : p ≠ "") (ends : EndsInName p)
    (starts : StartsInName q) {parts : List String} :
    (∃ moved, c.changeDirectory p = .ok moved ∧ moved.resolve q = .ok parts) ↔
      c.resolve (p ++ "/" ++ q) = .ok parts := by
  unfold resolve
  simp only [resolvePath_join_iff nonempty ends starts, changeDirectory_eq_ok_iff]
  constructor
  · rintro ⟨_, ⟨halfway, first, rfl⟩, second⟩
    exact ⟨halfway, first, second⟩
  · rintro ⟨halfway, first, second⟩
    exact ⟨_, ⟨halfway, first, rfl⟩, second⟩

theorem attempt_clean (clean : CleanParts c.directory) (path : String) :
    CleanParts (c.attempt path).directory := by
  cases changes : c.changeDirectory path with
  | error fault => rwa [attempt_of_error changes]
  | ok moved =>
    obtain ⟨parts, resolves, rfl⟩ := changeDirectory_eq_ok_iff.1 changes
    rw [attempt_of_ok changes]
    exact cleanParts_of_resolvePath clean resolves

/-- Changes keep a directory clean, be they refused or not. -/
theorem attempts_clean (clean : CleanParts c.directory) (paths : List String) :
    CleanParts (paths.foldl attempt c).directory := by
  induction paths generalizing c with
  | nil => exact clean
  | cons path paths ih => exact ih (attempt_clean clean path)

/-- The directory is where some changes of it lead from another one. -/
def MovedFrom (start directory : List String) : Prop :=
  ∃ paths : List String, ∀ c : Context, c.directory = start →
    (paths.foldl attempt c).directory = directory

theorem MovedFrom.refl (directory : List String) : MovedFrom directory directory :=
  ⟨[], fun _ same => same⟩

theorem MovedFrom.step {start directory parts : List String} (moved : MovedFrom start directory)
    {path : String} (resolves : resolvePath path directory = .ok parts) :
    MovedFrom start parts := by
  obtain ⟨paths, leads⟩ := moved
  refine ⟨paths ++ [path], fun c same => ?_⟩
  rw [List.foldl_append, List.foldl_cons, List.foldl_nil]
  have resolves : (paths.foldl attempt c).resolve path = .ok parts := by
    rw [resolve, leads c same, resolves]
  rw [attempt_of_ok (changeDirectory_eq_ok_iff.2 ⟨parts, resolves, rfl⟩)]

theorem MovedFrom.clean {start directory : List String} (moved : MovedFrom start directory)
    (clean : CleanParts start) : CleanParts directory := by
  obtain ⟨paths, leads⟩ := moved
  rw [← leads { directory := start } rfl]
  exact attempts_clean clean paths

end Context

/-! ## Hosts -/

/-- A function of a host leaves the directory, or it gives a value and changes it by a path. -/
def MovesByPath {η : Type} (function : Arguments → List String → η → Response η) : Prop :=
  ∀ arguments directory h, (function arguments directory h).directory = directory ∨
    (∃ data, (function arguments directory h).outcome = .value data) ∧
      ∃ path, resolvePath path directory = .ok (function arguments directory h).directory

/-- All functions of a host do so. -/
def Host.MovesByPaths {η : Type} (host : Host η) : Prop := ∀ f, MovesByPath (host f)

/-- What is done when a run is over leaves the directory. -/
def Finisher.Stays {η : Type} (finisher : Finisher η) : Prop :=
  ∀ result w, (finisher.effect result w).2.context.directory = w.context.directory

namespace Installation

theorem OnlyFiles.movesByPath {handle : Handler} (only : OnlyFiles handle) : MovesByPath handle :=
  fun arguments directory i => .inl (only arguments directory i).1

theorem setDirectory_movesByPath : MovesByPath setDirectory := by
  intro arguments directory i
  unfold setDirectory
  dsimp only
  split
  · rename_i parts _ resolves
    exact .inr ⟨⟨_, rfl⟩, _, resolves⟩
  · exact .inl rfl
  · exact .inl rfl

theorem editIni_movesByPath : MovesByPath editIni := by
  intro arguments directory i
  unfold editIni
  split <;> exact .inl rfl

theorem updateFiles_stay (edits : List IniEdit) (files : List (List String))
    (state : RunResult × World Installation) :
    (files.foldl (updateFile edits) state).2.context.directory = state.2.context.directory := by
  induction files generalizing state with
  | nil => rfl
  | cons file files ih =>
    rw [List.foldl_cons, ih]
    unfold updateFile
    dsimp only
    split <;> rfl

theorem settleEdits_stays : settleEdits.Stays := by
  intro result w
  rcases settleEdits_cases result w with ⟨-, eq⟩ | ⟨given, -, -, eq⟩ | ⟨given, message, -, -, eq⟩
  · rw [eq]
  · rw [eq]
    exact updateFiles_stay _ _ (given, w)
  · rw [eq]
    rfl

end Installation

namespace Dialect

variable {d : Dialect}

open Installation in
theorem bundled_movesByPath (bundled : d ∈ bundled) :
    ∀ entry ∈ d.handlers, MovesByPath entry.2 := by
  rcases List.mem_cons.1 bundled with rfl | other
  · simp only [stateOfDecay, List.forall_mem_cons]
    exact ⟨fileExists_onlyFiles.movesByPath, copy_onlyFiles.movesByPath,
      createDirectory_onlyFiles.movesByPath, deleteFile_onlyFiles.movesByPath,
      setDirectory_movesByPath, editIni_movesByPath, confirm_onlyFiles.movesByPath,
      choose_onlyFiles.movesByPath, reportVersion_onlyFiles.movesByPath,
      compareVersion_onlyFiles.movesByPath, warn_onlyFiles.movesByPath, fail_onlyFiles.movesByPath,
      List.forall_mem_nil _⟩
  · obtain rfl := List.mem_singleton.1 other
    simp only [monsterHunterWorld, List.forall_mem_cons]
    exact ⟨fileExists_onlyFiles.movesByPath, copy_onlyFiles.movesByPath,
      createDirectory_onlyFiles.movesByPath, confirm_onlyFiles.movesByPath,
      warn_onlyFiles.movesByPath, fail_onlyFiles.movesByPath, List.forall_mem_nil _⟩

theorem host_movesByPaths (bundled : d ∈ bundled) : d.host.MovesByPaths := by
  intro f
  rcases @Installation.host_cases d.handlers f with ⟨entry, member, same⟩ | same
  · rw [Dialect.host, same]
    exact bundled_movesByPath bundled entry member
  · rw [Dialect.host, same]
    exact fun _ _ _ => .inl rfl

theorem finisher_stays (bundled : d ∈ bundled) : d.finisher.Stays := by
  rcases bundled_finisher bundled with same | same
  · rw [same]
    exact Installation.settleEdits_stays
  · rw [same]
    exact fun _ _ => rfl

end Dialect

/-! ## Runs -/

section

variable {η : Type} {start : List String}

theorem Host.MovesByPaths.keeps {host : Host η} (moves : host.MovesByPaths) :
    host.Keeps fun _ directory _ => Context.MovedFrom start directory := by
  intro f arguments directory h _ moved
  rcases moves f arguments directory h with same | ⟨-, path, resolves⟩
  · rwa [same]
  · exact moved.step resolves

theorem Finisher.Stays.keeps {finisher : Finisher η} (stays : finisher.Stays) :
    finisher.Keeps fun _ directory _ => Context.MovedFrom start directory := by
  intro result w moved
  rw [World.Holds, stays result w]
  exact moved

/-- At every point of a history, and whenever a function is called, the directory is where changes
of it lead from that of the beginning. -/
theorem Session.directory_moved {setting : Setting η} (byPaths : setting.host.MovesByPaths)
    {finisher : Finisher η} (stays : finisher.Stays) (modest : finisher.Modest) (script : Block)
    (world : World η) (moves : List Move) :
    let run := moves.foldl Session.move (ofScript setting script world finisher)
    let watched := moves.foldl Session.move (ofWatched setting script world finisher)
    Context.MovedFrom world.context.directory run.world.context.directory ∧
      ∀ visit ∈ watched.world.host.2,
        Context.MovedFrom world.context.directory visit.directory := by
  have start : world.Holds fun _ directory _ =>
      Context.MovedFrom world.context.directory directory := .refl _
  refine ⟨moves_hold byPaths.keeps stays.keeps script start moves, fun visit member => ?_⟩
  obtain ⟨-, visits⟩ := visits_hold setting script byPaths.keeps stays.keeps modest start moves
  obtain ⟨_, moved⟩ := visits visit member
  exact moved

end

/-- A change of the directory and a path behind it lead to where the joined path leads, and to
nothing if that leads to nothing. A change that is refused leaves the context, and a function of a
bundled dialect that fails leaves the directory. Changes never lead from a clean directory to one
that is not clean; and at every point of a run of a bundled dialect, and at every call, the
directory is where changes lead from the root. -/
theorem currentDirectory_composes :
    (∀ (c : Context) (p q : String), p ≠ "" → EndsInName p → StartsInName q → ∀ parts,
      (∃ moved, c.changeDirectory p = .ok moved ∧ moved.resolve q = .ok parts) ↔
        c.resolve (p ++ "/" ++ q) = .ok parts) ∧
    (∀ (c : Context) path fault, c.changeDirectory path = .error fault → c.attempt path = c) ∧
    (∀ c : Context, CleanParts c.directory → ∀ paths : List String,
      CleanParts (paths.foldl Context.attempt c).directory) ∧
    ∀ d ∈ Dialect.bundled,
      (∀ f arguments directory i,
        (∀ data, (d.host f arguments directory i).outcome ≠ .value data) →
          (d.host f arguments directory i).directory = directory) ∧
      ∀ config script lines i (moves : List Session.Move),
        let run := moves.foldl Session.move (d.session config script (d.world lines i))
        let watched := moves.foldl Session.move (d.watchedSession config script (d.world lines i))
        run.Same watched ∧ Context.MovedFrom [] run.world.context.directory ∧
          CleanParts run.world.context.directory ∧ ∀ visit ∈ watched.world.host.2,
            Context.MovedFrom [] visit.directory ∧ CleanParts visit.directory := by
  refine ⟨fun c p q nonempty ends starts parts => Context.resolve_join_iff nonempty ends starts,
    fun c path fault => Context.attempt_of_error, fun c => Context.attempts_clean, fun d bundled =>
    ⟨fun f arguments directory i fails => ?_, fun config script lines i moves => ?_⟩⟩
  · rcases Dialect.host_movesByPaths bundled f arguments directory i with same | ⟨⟨data, gives⟩, -⟩
    · exact same
    · exact absurd gives (fails data)
  · have byPaths : (d.setting config).host.MovesByPaths := Dialect.host_movesByPaths bundled
    have modest := Dialect.finisher_modest bundled
    have stays := Dialect.finisher_stays bundled
    obtain ⟨moved, visits⟩ := Session.directory_moved byPaths stays modest script
      ((d.world lines i).note .debug .dialects s!"starting {d.name} run") moves
    exact ⟨Session.watched_same _ _ _ modest moves, moved, moved.clean .nil,
      fun visit member => ⟨visits visit member, (visits visit member).clean .nil⟩⟩

/-- A path from the root that climbs, and a relative one behind it. -/
theorem climbing_composes :
    "\\mods/./a\\.." ≠ "" ∧ EndsInName "\\mods/./a\\.." ∧ StartsInName "b//c" ∧
      ∃ moved, ({ directory := ["x"] } : Context).changeDirectory "\\mods/./a\\.." = .ok moved ∧
        moved.resolve "b//c" = .ok ["mods", "b", "c"] := by
  have ends : EndsInName "\\mods/./a\\.." := by
    intro c last
    have dot : "\\mods/./a\\..".toList.getLast? = some '.' := by decide +kernel
    cases dot.symm.trans last
    rfl
  have starts : StartsInName "b//c" := by
    intro c first
    have letter : "b//c".toList.head? = some 'b' := by decide +kernel
    cases letter.symm.trans first
    rfl
  have joined : ({ directory := ["x"] } : Context).resolve ("\\mods/./a\\.." ++ "/" ++ "b//c") =
      .ok ["mods", "b", "c"] := by decide +kernel
  exact ⟨by decide, ends, starts,
    (currentDirectory_composes.1 _ _ _ (by decide) ends starts _).2 joined⟩

end InstallScript
