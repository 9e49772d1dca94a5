import InstallScript.Proofs.Run.Finishers
import InstallScript.Proofs.Run.HostInvariants
import InstallScript.Proofs.Settings.Confinement

/-!
Runs between the roots. Whatever a script of a bundled dialect does, its functions and what is done
when the run is over make accesses only below the two roots, by clean names; nothing but what is
below the root of writes is ever another than before (`nothing_outside_reached`).
-/

namespace InstallScript

open Installation

/-! ## The roots of a dialect -/

namespace Dialect

theorem bundled_installRoot {d : Dialect} (bundled : d ∈ bundled) :
    CleanParts d.installRoot ∧ d.installRoot.dropLast = [] := by
  rcases List.mem_cons.1 bundled with rfl | other
  · exact ⟨.nil, rfl⟩
  · obtain rfl := List.mem_singleton.1 other
    exact ⟨.singleton (by decide), rfl⟩

/-- The roots between which the scripts of a bundled dialect work. -/
def roots {d : Dialect} (bundled : d ∈ bundled) (source target : Path) : Roots where
  source := source
  target := target
  inner := d.installRoot
  clean := (bundled_installRoot bundled).1
  single := (bundled_installRoot bundled).2

/-- What a bundled dialect does when a run is over. -/
theorem bundled_finisher {d : Dialect} (bundled : d ∈ bundled) :
    d.finisher = settleEdits ∨ d.finisher = Finisher.idle := by
  rcases List.mem_cons.1 bundled with rfl | other
  · exact .inl rfl
  · obtain rfl := List.mem_singleton.1 other
    exact .inr rfl

theorem finisher_modest {d : Dialect} (bundled : d ∈ bundled) : d.finisher.Modest := by
  rcases bundled_finisher bundled with same | same
  · rw [same]
    exact settleEdits_modest
  · rw [same]
    exact Finisher.idle_modest

end Dialect

/-! ## What every run keeps -/

/-- An installation in the course of a run: it is steady, its roots are what they should be, and
nothing outside of them has changed since the start. -/
structure Installation.Contained (r : Roots) (start : FileTree) (i : Installation)
    (directory : List String) : Prop where
  steady : Steady r i directory
  sound : r.Sound i.files
  keeps : r.Keeps start i.files

section

variable {r : Roots} {start : FileTree}

theorem Installation.Contained.of_confined {i i' : Installation} {directory directory' : List String}
    (contained : Contained r start i directory) {α : Type} {f : FileTree → α × FileTree}
    (confined : Confined r f) (files : i'.files = (f i.files).2) (steady : Steady r i' directory') :
    Contained r start i' directory' := by
  have keeps := confined.keeps contained.sound
  rw [← files] at keeps
  exact ⟨steady, contained.sound.of_keeps keeps, contained.keeps.trans keeps⟩

/-- The functions of a bundled dialect keep an installation contained. -/
theorem Dialect.host_contained {d : Dialect} (bundled : d ∈ bundled) :
    d.host.Keeps fun i directory _ => Contained r start i directory := by
  intro f arguments directory i _ contained
  have confines := host_confines (fun entry member =>
    (bundled_handlers bundled r entry member).1) f
  have keeps := host_keepsSteady (fun entry member =>
    (bundled_handlers bundled r entry member).2) f
  exact contained.of_confined (confines arguments directory i contained.steady.rooted
    contained.steady.clean) rfl (keeps arguments directory i contained.steady)

/-- Changing a settings file changes nothing but the files, what the log says and the warnings. -/
theorem Installation.steady_updateFile (edits : List IniEdit) {result : RunResult}
    {w : World Installation} (steady : Steady r w.host w.context.directory) (file : List String) :
    Steady r (updateFile edits (result, w) file).2.host
      (updateFile edits (result, w) file).2.context.directory := by
  rcases eq : updateSettings w.host.files (w.host.target.join file)
    (ownEdits edits file) with ⟨files', _ | fault⟩
  · obtain ⟨log, after⟩ := updateFile_changed result eq
    rw [after]
    exact ⟨⟨steady.rooted.source, steady.rooted.target, steady.rooted.inner⟩, steady.clean,
      steady.edits⟩
  · obtain ⟨log, after⟩ := updateFile_failed result eq
    rw [after]
    exact ⟨⟨steady.rooted.source, steady.rooted.target, steady.rooted.inner⟩, steady.clean,
      steady.edits⟩

theorem Installation.steady_dropEdits {w : World Installation} {directory : List String}
    (steady : Steady r w.host directory) : Steady r (dropEdits w).host directory :=
  ⟨⟨steady.rooted.source, steady.rooted.target, steady.rooted.inner⟩, steady.clean, nofun⟩

theorem Installation.steady_settleEdits (result : Option RunResult) {w : World Installation}
    (steady : Steady r w.host w.context.directory) :
    Steady r (settleEdits.effect result w).2.host
      (settleEdits.effect result w).2.context.directory := by
  rcases settleEdits_cases result w with ⟨-, eq⟩ | ⟨given, -, -, eq⟩ | ⟨given, message, -, -, eq⟩
  · rwa [eq]
  · rw [eq]
    refine steady_dropEdits ?_
    generalize editedFiles w.host.pendingEdits = order
    generalize w.host.pendingEdits = edits
    clear eq
    induction order generalizing given w with
    | nil => exact steady
    | cons file order ih =>
      rw [List.foldl_cons]
      exact ih (steady_updateFile edits steady file) _
  · rw [eq]
    exact steady_dropEdits steady

theorem Dialect.finisher_confined {d : Dialect} (bundled : d ∈ bundled) {w : World Installation}
    (steady : Steady r w.host w.context.directory) (result : Option RunResult) :
    Confined r (d.finisher.work result w) := by
  rcases bundled_finisher bundled with same | same
  · rw [same]
    exact settleEdits_confined steady result
  · rw [same]
    refine .of_eq (fun files => ?_) (.done (result, w.withFiles {}))
    cases result <;> rfl

theorem Dialect.finisher_contained {d : Dialect} (bundled : d ∈ bundled) :
    d.finisher.Keeps fun i directory _ => Contained r start i directory := by
  intro result w contained
  have contained : Contained r start w.host w.context.directory := contained
  refine contained.of_confined (finisher_confined bundled contained.steady result) rfl ?_
  rcases bundled_finisher bundled with same | same
  · rw [same]
    exact steady_settleEdits result contained.steady
  · rw [same]
    exact contained.steady

end

/-! ## Sessions -/

namespace Dialect

variable (d : Dialect) (config : Config) (script : Block) (world : World Installation)

/-- A run of a script that is about to start, whose calls are watched. -/
def watchedSession : Session (Installation × List (Visit Installation)) :=
  Session.ofWatched (d.setting config) script
    (world.note .debug .dialects s!"starting {d.name} run") d.finisher

variable {d} in
theorem finisher_needsResult (bundled : d ∈ bundled) : d.finisher.NeedsResult := by
  rcases bundled_finisher bundled with same | same
  · rw [same]
    exact settleEdits_needsResult
  · rw [same]
    exact fun _ => rfl

end Dialect

/-- Nothing outside of the two roots is reached. Every call that a run of a bundled dialect makes, and
what is done when it is over, work on the files by accesses below the two roots only, each by clean
names: to look, to list what is in the mod, and to make, to write and to remove in the game below
its root of writes. So the mod stays as it is, and everything else that is not below the root of
writes. -/
theorem nothing_outside_reached {d : Dialect} (bundled : d ∈ Dialect.bundled) (config : Config)
    (script : Block) (lines : List String) (files : FileTree) (source target : Path)
    (gameVersion : String) (sound : (Dialect.roots bundled source target).Sound files)
    (moves : List Session.Move) :
    let r := Dialect.roots bundled source target
    let world := d.world lines { files, source, target, gameVersion }
    let session := moves.foldl Session.move (d.session config script world)
    let watched := moves.foldl Session.move (d.watchedSession config script world)
    let unsettled := moves.foldl Session.move (d.session config script world).unsettled
    (session.Same watched ∧
      watched.world.calls.toList = watched.world.host.2.map Visit.call ∧
      ∀ visit ∈ watched.world.host.2, r.Sound visit.host.files ∧
        Within r (Handler.work (d.host visit.function) visit.arguments visit.directory visit.host)) ∧
    (session.Settles unsettled ∧ r.Sound unsettled.world.host.files ∧
      ∀ result, Within r (d.finisher.work result unsettled.world)) ∧
    (∀ parts, session.world.host.files.get? (source.place ++ parts) =
      files.get? (source.place ++ parts)) ∧
    ∀ place, ¬ target.place ++ d.installRoot <+: place →
      session.world.host.files.get? place = files.get? place := by
  intro r world session watched unsettled
  have start : (world.note .debug .dialects s!"starting {d.name} run").Holds
      fun i directory _ => Contained r files i directory :=
    ⟨⟨⟨rfl, rfl, rfl⟩, .nil, nofun⟩, sound, .refl r files⟩
  have keeps : (d.setting config).host.Keeps fun i directory _ => Contained r files i directory :=
    Dialect.host_contained bundled
  have keeps' : d.finisher.Keeps fun i directory _ => Contained r files i directory :=
    Dialect.finisher_contained bundled
  have modest := Dialect.finisher_modest bundled
  -- What is contained at the end is so before the finisher acts, and at every call.
  have final := Session.moves_hold keeps keeps' script start moves
  have before := Session.moves_hold keeps (Finisher.idle_keeps _) script start moves
  obtain ⟨calls, visits⟩ := Session.visits_hold (d.setting config) script keeps keeps' modest
    start moves
  have settles : session.Settles unsettled :=
    Session.moves_unsettled rfl (Dialect.finisher_needsResult bundled) moves
  have elsewhere : ∀ place, ¬ target.place ++ d.installRoot <+: place →
      session.world.host.files.get? place = files.get? place := fun _ => final.keeps.elsewhere
  refine ⟨⟨Session.watched_same _ _ _ modest moves, calls, fun visit member => ?_⟩,
    ⟨settles, before.sound, fun result => ?_⟩, fun parts => elsewhere _ (sound.outside parts),
    elsewhere⟩
  · obtain ⟨_, held⟩ := visits visit member
    have confines := host_confines (fun entry member =>
      (Dialect.bundled_handlers bundled r entry member).1) visit.function
    exact ⟨held.sound, (confines visit.arguments visit.directory visit.host held.steady.rooted
      held.steady.clean).within⟩
  · exact (Dialect.finisher_confined bundled before.steady result).within

/-- A mod with one file, and a game. -/
def modAndGame : FileTree :=
  ⟨[(["mod"], .directory), (["mod", "a"], .file [1]), (["game"], .directory)]⟩

/-- A script that copies this file. -/
def copying : Block :=
  .mk default [.call (.mk default "Copy"
    [.literal default (.string "a"), .literal default (.string "b")] [])]

/-- The dialect in which it does so. -/
theorem monsterHunterWorld_bundled : Dialect.monsterHunterWorld ∈ Dialect.bundled :=
  List.mem_cons_of_mem _ (List.mem_singleton_self _)

/-- The roots of this installation. -/
def modAndGameRoots : Roots :=
  Dialect.roots monsterHunterWorld_bundled ⟨"", ["mod"]⟩ ⟨"", ["game"]⟩

theorem modAndGame_sound : modAndGameRoots.Sound modAndGame where
  source := rfl
  target := rfl
  apart := by
    show ¬ ["game", "nativePC"] <+: ["mod"]
    decide
  apart' := by
    show ¬ ["mod"] <+: ["game", "nativePC"]
    decide
  names parts stands := by
    have stands : modAndGame.get? ("mod" :: parts) ≠ none := stands
    have given : ("mod" :: parts) ∈ modAndGame.entries.map (·.1) :=
      FileTree.mem_of_lookup_some.2 (Option.isSome_iff_ne_none.2 stands)
    simp only [modAndGame, List.map_cons, List.map_nil, List.mem_cons, List.cons.injEq,
      List.not_mem_nil, or_false, String.reduceEq, false_and, true_and] at given
    rcases given with rfl | rfl
    · exact .nil
    · exact .singleton (by decide)

/-- The beginning of the installation. -/
def modAndGameWorld : World Installation :=
  Dialect.monsterHunterWorld.world [] ⟨modAndGame, ⟨"", ["mod"]⟩, ⟨"", ["game"]⟩, "1", [], [], []⟩

/-- The run of the script. -/
def copyingRun : Session Installation :=
  [.start].foldl Session.move (Dialect.monsterHunterWorld.session {} copying modAndGameWorld)

/-- The run of the script, watched. -/
def copyingWatched : Session (Installation × List (Visit Installation)) :=
  [.start].foldl Session.move (Dialect.monsterHunterWorld.watchedSession {} copying modAndGameWorld)

theorem copying_within :
    copyingRun.world.host.files.get? ["game", "nativePC", "b"] = some (.file [1]) ∧
      copyingRun.world.host.files.get? ["mod", "a"] = modAndGame.get? ["mod", "a"] ∧
      ∃ visit, copyingWatched.world.host.2 = [visit] ∧ visit.call.1 = "Copy" ∧
        Within modAndGameRoots (Handler.work (Dialect.monsterHunterWorld.host visit.function)
          visit.arguments visit.directory visit.host) := by
  have shape : copyingWatched.world.host.2.map (·.call.1) = ["Copy"] := by decide +kernel
  have all := nothing_outside_reached monsterHunterWorld_bundled {} copying [] modAndGame
    ⟨"", ["mod"]⟩ ⟨"", ["game"]⟩ "1" modAndGame_sound [.start]
  dsimp only at all
  rw [← modAndGameWorld, ← copyingRun, ← copyingWatched, ← modAndGameRoots] at all
  obtain ⟨⟨-, -, visits⟩, -, kept, -⟩ := all
  obtain ⟨visit, rest, single, name, none'⟩ := List.map_eq_cons_iff.1 shape
  obtain rfl := List.map_eq_nil_iff.1 none'
  have member : visit ∈ copyingWatched.world.host.2 := by
    rw [single]
    exact List.mem_singleton_self visit
  exact ⟨by decide +kernel, kept ["a"], visit, single, name, (visits visit member).2⟩

end InstallScript
