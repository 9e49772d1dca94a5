import InstallScript.Dialect.Bundled
import InstallScript.Proofs.Files.Places
import InstallScript.Proofs.Run.Moves

/-!
What comes of the functions of the bundled dialects. Each gives a value of the kind that it declares,
asks a question or fails with a message, whatever it is called with, wherever the current directory
is and whatever the files are (`bundled_functions_report`). There are exceptions, and they are told
exactly: a name that is too long for the file system, and a digit that is no decimal digit in a
version (`Installation.Slips`).
-/

namespace InstallScript

/-! ## Versions -/

/-- Whether a computation breaks off. -/
def Breaks {ε α : Type} (result : Except ε α) : Prop := ∃ e, result = .error e

theorem breaks_mapM_iff {ε α β : Type} {f : α → Except ε β} {l : List α} :
    Breaks (l.mapM f) ↔ ∃ x ∈ l, Breaks (f x) := by
  induction l with
  | nil => simp [Breaks, pure, Except.pure]
  | cons x l ih =>
    rw [List.mapM_cons, List.exists_mem_cons_iff, ← ih]
    cases first : f x with
    | error e => simp [Breaks, bind, Except.bind]
    | ok y =>
      cases later : l.mapM f <;> simp [Breaks, bind, Except.bind, pure, Except.pure]

/-- Digits fail to be a number if one of them has no value. -/
theorem readDigits?_eq_none_iff {expectDigit : Bool} {n : Nat} {cs : List Char}
    (digits : cs.all Text.isDigit = true) : readDigits? expectDigit n cs = none ↔
      (cs = [] ∧ expectDigit = true) ∨ ∃ c ∈ cs, Text.decimalValue? c = none := by
  induction cs generalizing expectDigit n with
  | nil => cases expectDigit <;> simp [readDigits?]
  | cons c rest ih =>
    obtain ⟨first, later⟩ := Bool.and_eq_true_iff.1 ((List.all_cons ..).symm.trans digits)
    have other : c ≠ '_' := by
      rintro rfl
      exact absurd first (by decide)
    rw [readDigits?, if_neg other, List.exists_mem_cons_iff]
    cases value : Text.decimalValue? c with
    | none => simp
    | some d =>
      dsimp only
      rw [ih later]
      simp

/-- A version with a part of digits of which one is no decimal digit. -/
def OddVersion (version : String) : Prop :=
  ∃ piece ∈ versionPieces [] (Text.strip version.toList), piece.all Text.isDigit = true ∧
    ∃ c ∈ piece, Text.decimalValue? c = none

instance (version : String) : Decidable (OddVersion version) :=
  decidable_of_iff ((versionPieces [] (Text.strip version.toList)).any fun piece =>
    piece.all Text.isDigit && piece.any fun c => (Text.decimalValue? c).isNone)
    (by simp [OddVersion])

theorem breaks_ofPiece_iff {piece : List Char} (nonempty : piece ≠ []) :
    Breaks (VersionPart.ofPiece piece) ↔
      piece.all Text.isDigit = true ∧ ∃ c ∈ piece, Text.decimalValue? c = none := by
  unfold VersionPart.ofPiece
  by_cases digits : piece.all Text.isDigit = true
  · have none_iff := @readDigits?_eq_none_iff true 0 piece digits
    rw [if_pos digits]
    cases value : readDigits? true 0 piece with
    | none =>
      have odd := (none_iff.1 value).resolve_left fun both => nonempty both.1
      exact ⟨fun _ => ⟨digits, odd⟩, fun _ => ⟨_, rfl⟩⟩
    | some n =>
      refine ⟨fun ⟨_, other⟩ => (nomatch other), fun ⟨_, odd⟩ => ?_⟩
      rw [none_iff.2 (.inr odd)] at value
      cases value
  · rw [if_neg digits]
    exact ⟨fun ⟨_, other⟩ => (nomatch other), fun ⟨digits', _⟩ => absurd digits' digits⟩

theorem breaks_ofString_iff {version : String} :
    Breaks (VersionKey.ofString version) ↔ OddVersion version := by
  have breaks : Breaks (VersionKey.ofString version) ↔ Breaks (((versionPieces []
      (Text.strip version.toList)).filter (!·.isEmpty)).mapM VersionPart.ofPiece) := by
    unfold VersionKey.ofString
    dsimp only
    cases ((versionPieces [] (Text.strip version.toList)).filter
      (!·.isEmpty)).mapM VersionPart.ofPiece <;> simp [Breaks, bind, Except.bind, pure, Except.pure]
  rw [breaks, breaks_mapM_iff]
  constructor
  · rintro ⟨piece, member, breaks⟩
    obtain ⟨given, some'⟩ := List.mem_filter.1 member
    have nonempty : piece ≠ [] := by simpa using some'
    exact ⟨piece, given, (breaks_ofPiece_iff nonempty).1 breaks⟩
  · rintro ⟨piece, given, digits, c, member, odd⟩
    have nonempty : piece ≠ [] := List.ne_nil_of_mem member
    exact ⟨piece, List.mem_filter.2 ⟨given, by simpa using nonempty⟩,
      (breaks_ofPiece_iff nonempty).2 ⟨digits, c, member, odd⟩⟩

theorem breaks_compareVersions_iff {left right : String} :
    Breaks (compareVersions left right) ↔ OddVersion left ∨ OddVersion right := by
  rw [← breaks_ofString_iff, ← breaks_ofString_iff]
  unfold compareVersions
  cases VersionKey.ofString left <;> cases VersionKey.ofString right <;>
    simp [Breaks, bind, Except.bind, pure, Except.pure]

namespace Installation

/-! ## Looking -/

/-- Looking for a path is refused, as a name is too long. -/
def TooLong (i : Installation) (p : Path) : Prop := i.files.locate p = .error .nameTooLong

theorem look_of_tooLong {i : Installation} {p : Path} (long : i.TooLong p) :
    i.look p = .error (.crash (.file ⟨.nameTooLong, p.text⟩)) := by
  rw [look, FileTree.look, show i.files.locate p = _ from long]
  rfl

theorem look_of_short {i : Installation} {p : Path} (short : ¬ i.TooLong p) :
    i.look p = .ok (i.files.find? p) := by
  unfold TooLong at short
  unfold look FileTree.look FileTree.find?
  cases leads : i.files.locate p with
  | ok place => rfl
  | error fault =>
    rw [leads] at short
    cases fault <;> first | rfl | exact absurd rfl short

/-! ## Outcomes -/

/-- What comes of a function that gives values of a kind, and that breaks off in one case only. -/
def Tells (kind : ValueKind) (slips : Prop) : Outcome → Prop
  | .value data => ¬ slips ∧ ∃ v, Value.ofDatum? data = some v ∧ v.kind = kind
  | .question _ => ¬ slips
  | .failure _ => ¬ slips
  | .crash _ => slips

/-- Whether the path that is given for a parameter leads to a name in the mod that is too long. -/
def SourceTooLong (i : Installation) (directory : List String) (path : String) : Prop :=
  ∃ p, i.sourcePath directory path = .ok p ∧ i.TooLong p

/-- Whether a copy breaks off. The target is looked for only if the source is there. -/
def CopyTooLong (i : Installation) (directory : List String) (source destination : String) : Prop :=
  ∃ src parts, i.sourcePath directory source = .ok src ∧ i.targetParts destination = .ok parts ∧
    (i.TooLong src ∨ i.files.find? src ≠ none ∧ i.TooLong (i.target.join parts))

/-- Whether a path leads to a name in the game that is too long. -/
def TargetTooLong (i : Installation) (path : String) : Prop :=
  ∃ parts, i.targetParts path = .ok parts ∧ i.TooLong (i.target.join parts)

section

variable (i : Installation) (directory : List String) (path : String)

theorem sourcePath_cases : (∃ p, i.sourcePath directory path = .ok p) ∨
    ∃ message, i.sourcePath directory path = .error (.failure message) := by
  unfold sourcePath
  cases resolvePath path directory with
  | ok parts => exact .inl ⟨_, rfl⟩
  | error fault => exact .inr ⟨_, rfl⟩

theorem targetParts_cases : (∃ parts, i.targetParts path = .ok parts) ∨
    ∃ message, i.targetParts path = .error (.failure message) := by
  unfold targetParts
  cases resolvePath path [] with
  | ok parts => exact .inl ⟨_, rfl⟩
  | error fault => exact .inr ⟨_, rfl⟩

variable {i directory path}

theorem not_sourceTooLong {message : String}
    (fails : i.sourcePath directory path = .error (.failure message)) :
    ¬ i.SourceTooLong directory path := by
  rintro ⟨p, leads, -⟩
  cases fails.symm.trans leads

theorem sourceTooLong_iff {p : Path} (leads : i.sourcePath directory path = .ok p) :
    i.SourceTooLong directory path ↔ i.TooLong p := by
  constructor
  · rintro ⟨p', leads', long⟩
    cases leads.symm.trans leads'
    exact long
  · exact fun long => ⟨p, leads, long⟩

theorem not_targetTooLong {message : String}
    (fails : i.targetParts path = .error (.failure message)) : ¬ i.TargetTooLong path := by
  rintro ⟨parts, leads, -⟩
  cases fails.symm.trans leads

theorem targetTooLong_iff {parts : List String} (leads : i.targetParts path = .ok parts) :
    i.TargetTooLong path ↔ i.TooLong (i.target.join parts) := by
  constructor
  · rintro ⟨parts', leads', long⟩
    cases leads.symm.trans leads'
    exact long
  · exact fun long => ⟨parts, leads, long⟩

end

/-! ## Handlers -/

section

variable (arguments : Arguments) (directory : List String) (i : Installation)

theorem fileExists_tells : Tells .bool (i.SourceTooLong directory (arguments.string "path"))
    (fileExists arguments directory i).outcome := by
  unfold fileExists
  rcases i.sourcePath_cases directory (arguments.string "path") with ⟨p, leads⟩ | ⟨message, fails⟩
  · rw [leads, sourceTooLong_iff leads]
    by_cases long : i.TooLong p
    · simp only [bind, Except.bind, look_of_tooLong long]
      exact long
    · simp only [bind, Except.bind, look_of_short long]
      exact ⟨long, _, rfl, rfl⟩
  · rw [fails]
    exact not_sourceTooLong fails

theorem setDirectory_tells : Tells .void (i.SourceTooLong directory (arguments.string "path"))
    (setDirectory arguments directory i).outcome := by
  unfold setDirectory
  dsimp only
  rcases i.sourcePath_cases directory (arguments.string "path") with ⟨p, leads⟩ | ⟨message, fails⟩
  · rw [leads, sourceTooLong_iff leads]
    obtain ⟨parts, resolves⟩ : ∃ parts, resolvePath (arguments.string "path") directory =
        .ok parts := by
      unfold sourcePath at leads
      cases resolves : resolvePath (arguments.string "path") directory with
      | ok parts => exact ⟨parts, rfl⟩
      | error fault =>
        rw [resolves] at leads
        cases leads
    rw [resolves]
    by_cases long : i.TooLong p
    · simp only [bind, Except.bind, look_of_tooLong long]
      exact long
    · simp only [bind, Except.bind, look_of_short long]
      by_cases stands : i.files.find? p = some .directory
      · rw [if_pos stands]
        exact ⟨long, _, rfl, rfl⟩
      · rw [if_neg stands]
        exact long
  · rw [fails]
    exact not_sourceTooLong fails

theorem deleteFile_tells : Tells .void (i.TargetTooLong (arguments.string "path"))
    (deleteFile arguments directory i).outcome := by
  unfold deleteFile
  dsimp only
  rcases i.targetParts_cases (arguments.string "path") with ⟨parts, leads⟩ | ⟨message, fails⟩
  · rw [leads, targetTooLong_iff leads]
    by_cases long : i.TooLong (i.target.join parts)
    · simp only [bind, Except.bind, look_of_tooLong long]
      exact long
    · simp only [bind, Except.bind, look_of_short long]
      rcases i.files.find? (i.target.join parts) with _ | content | _
      · exact long
      · dsimp only
        cases i.files.remove (i.target.join parts) with
        | ok files => exact ⟨long, _, rfl, rfl⟩
        | error e => exact long
      · exact long
  · rw [fails]
    exact not_targetTooLong fails

theorem copyTooLong_iff {source destination : String} {src : Path} {parts : List String}
    (leads : i.sourcePath directory source = .ok src)
    (leads' : i.targetParts destination = .ok parts) :
    i.CopyTooLong directory source destination ↔
      i.TooLong src ∨ i.files.find? src ≠ none ∧ i.TooLong (i.target.join parts) := by
  constructor
  · rintro ⟨src', parts', source', target', long⟩
    cases leads.symm.trans source'
    cases leads'.symm.trans target'
    exact long
  · exact fun long => ⟨src, parts, leads, leads', long⟩

theorem copyPlan_tells (source destination : String) (overwrite : Bool) :
    (∃ plan, i.copyPlan directory source destination overwrite = .ok plan) ∧
        ¬ i.CopyTooLong directory source destination ∨
      ∃ outcome, i.copyPlan directory source destination overwrite = .error outcome ∧
        Tells .void (i.CopyTooLong directory source destination) outcome := by
  unfold copyPlan
  rcases i.sourcePath_cases directory source with ⟨src, leads⟩ | ⟨message, fails⟩
  · rcases i.targetParts_cases destination with ⟨parts, leads'⟩ | ⟨message, fails⟩
    · rw [leads, leads', i.copyTooLong_iff directory leads leads']
      by_cases long : i.TooLong src
      · simp only [bind, Except.bind, look_of_tooLong long]
        exact .inr ⟨_, rfl, .inl long⟩
      · simp only [bind, Except.bind, look_of_short long]
        cases stands : i.files.find? src with
        | none =>
          refine .inr ⟨_, rfl, ?_⟩
          rintro (long' | ⟨other, -⟩)
          · exact long long'
          · exact other rfl
        | some entry =>
          by_cases long' : i.TooLong (i.target.join parts)
          · simp only [look_of_tooLong long']
            exact .inr ⟨_, rfl, .inr ⟨nofun, long'⟩⟩
          · have short : ¬ (i.TooLong src ∨ some entry ≠ none ∧ i.TooLong (i.target.join parts)) := by
              rintro (long'' | ⟨-, long''⟩)
              · exact long long''
              · exact long' long''
            simp only [look_of_short long', Option.isNone_some, Bool.false_eq_true, if_false]
            cases (i.files.find? (i.target.join parts)).isSome && !overwrite with
            | true => exact .inr ⟨_, rfl, short⟩
            | false => exact .inl ⟨⟨_, rfl⟩, short⟩
    · rw [leads, fails]
      refine .inr ⟨_, rfl, ?_⟩
      rintro ⟨_, parts, -, leads', -⟩
      cases fails.symm.trans leads'
  · rw [fails]
    refine .inr ⟨_, rfl, ?_⟩
    rintro ⟨src, _, leads, -⟩
    cases fails.symm.trans leads

theorem copy_tells : Tells .void
    (i.CopyTooLong directory (arguments.string "source") (arguments.string "destination"))
    (copy arguments directory i).outcome := by
  unfold copy
  dsimp only
  rcases i.copyPlan_tells directory (arguments.string "source") (arguments.string "destination")
    (arguments.flag "overwrite") with ⟨⟨⟨src, parts⟩, plans⟩, short⟩ | ⟨outcome, fails, tells⟩
  · rw [plans]
    dsimp only
    rcases copyInto i.files src (i.target.join parts) with ⟨files, _ | e⟩
    · exact ⟨short, _, rfl, rfl⟩
    · exact short
  · rw [fails]
    exact tells

theorem createDirectory_tells :
    Tells .void False (createDirectory arguments directory i).outcome := by
  unfold createDirectory
  dsimp only
  rcases i.targetParts_cases (arguments.string "path") with ⟨parts, leads⟩ | ⟨message, fails⟩
  · rw [leads]
    dsimp only
    rcases i.files.ensureDirectory (i.target.join parts) with ⟨files, _ | e⟩
    · exact ⟨id, _, rfl, rfl⟩
    · exact id
  · rw [fails]
    exact id

theorem editIni_tells : Tells .void False (editIni arguments directory i).outcome := by
  unfold editIni
  rcases i.targetParts_cases (arguments.string "file") with ⟨file, leads⟩ | ⟨message, fails⟩
  · rw [leads]
    exact ⟨id, _, rfl, rfl⟩
  · rw [fails]
    exact id

theorem choose_tells : Tells .string False (choose arguments directory i).outcome := by
  unfold choose
  dsimp only
  split <;> exact id

theorem compareVersion_tells : Tells .number
    (OddVersion (arguments.string "left") ∨ OddVersion (arguments.string "right"))
    (compareVersion arguments directory i).outcome := by
  unfold compareVersion
  rw [← breaks_compareVersions_iff]
  cases compareVersions (arguments.string "left") (arguments.string "right") with
  | ok sign => exact ⟨fun ⟨_, other⟩ => (nomatch other), _, rfl, rfl⟩
  | error d => exact ⟨d, rfl⟩

theorem reportVersion_tells : Tells .string False (reportVersion arguments directory i).outcome :=
  ⟨id, _, rfl, rfl⟩

theorem confirm_tells : Tells .bool False (confirm arguments directory i).outcome := id

theorem warn_tells : Tells .void False (warn arguments directory i).outcome := ⟨id, _, rfl, rfl⟩

theorem fail_tells : Tells .void False (fail arguments directory i).outcome := id

end

/-! ## Dialects -/

/-- When a function of a bundled dialect breaks off. -/
def Slips (i : Installation) (directory : List String) (function : String) (arguments : Arguments) :
    Prop :=
  if function = "FileExists" ∨ function = "SetDirectory" then
    i.SourceTooLong directory (arguments.string "path")
  else if function = "Copy" then
    i.CopyTooLong directory (arguments.string "source") (arguments.string "destination")
  else if function = "DeleteFile" then i.TargetTooLong (arguments.string "path")
  else if function = "CompareVersion" then
    OddVersion (arguments.string "left") ∨ OddVersion (arguments.string "right")
  else False

/-- A function is handled by the handler under its name, if no two names are the same but for letter
case. -/
theorem host_eq_of_mem {handlers : List (String × Handler)}
    (distinct : (handlers.map fun entry => Text.fold entry.1).Nodup) {f : FunctionSpec}
    {handle : Handler} (member : (f.name, handle) ∈ handlers) : host handlers f = handle := by
  have found : handlers.find? (fun entry => Text.fold entry.1 = Text.fold f.name) =
      some (f.name, handle) := by
    induction handlers with
    | nil => cases member
    | cons entry handlers ih =>
      obtain ⟨fresh, distinct⟩ := List.nodup_cons.1 distinct
      rcases List.mem_cons.1 member with rfl | later
      · exact List.find?_cons_of_pos (decide_eq_true rfl)
      · have differs : Text.fold entry.1 ≠ Text.fold f.name := fun same =>
          fresh (List.mem_map.2 ⟨_, later, same.symm⟩)
        rw [List.find?_cons_of_neg (by simpa using differs), ih distinct later]
  refine funext fun arguments => funext fun directory => funext fun i => ?_
  rw [host, handler?, found]
  rfl

theorem stateOfDecay_distinct :
    (Dialect.stateOfDecay.handlers.map fun entry => Text.fold entry.1).Nodup := by
  decide +kernel

theorem monsterHunterWorld_distinct :
    (Dialect.monsterHunterWorld.handlers.map fun entry => Text.fold entry.1).Nodup := by
  decide +kernel

/-- Each function of a bundled dialect is handled as it declares. -/
theorem bundled_tells {d : Dialect} (bundled : d ∈ Dialect.bundled) {f : FunctionSpec}
    (declared : f ∈ d.definition.catalog.functions) (arguments : Arguments)
    (directory : List String) (i : Installation) :
    Tells f.returns (i.Slips directory f.name arguments)
      (d.host f arguments directory i).outcome := by
  have told {handlers : List (String × Handler)}
      (distinct : (handlers.map fun entry => Text.fold entry.1).Nodup) {handle : Handler}
      (member : (f.name, handle) ∈ handlers)
      (tells : ∀ arguments directory (i : Installation), Tells f.returns
        (i.Slips directory f.name arguments) (handle arguments directory i).outcome) :
      Tells f.returns (i.Slips directory f.name arguments)
        (host handlers f arguments directory i).outcome := by
    rw [host_eq_of_mem distinct member]
    exact tells arguments directory i
  rcases List.mem_cons.1 bundled with rfl | other
  · have told {handle : Handler} (member : (f.name, handle) ∈ Dialect.stateOfDecay.handlers) :=
      told stateOfDecay_distinct member
    simp only [Dialect.stateOfDecay, Dialect.stateOfDecayCatalog, List.mem_cons, List.not_mem_nil,
      or_false] at declared told
    rcases declared with rfl | rfl | rfl | rfl | rfl | rfl | rfl | rfl | rfl | rfl | rfl | rfl
    · exact told (by simp) fileExists_tells
    · exact told (by simp) copy_tells
    · exact told (by simp) createDirectory_tells
    · exact told (by simp) deleteFile_tells
    · exact told (by simp) setDirectory_tells
    · exact told (by simp) editIni_tells
    · exact told (by simp [Dialect.confirmFunction]) confirm_tells
    · exact told (by simp) choose_tells
    · exact told (by simp) reportVersion_tells
    · exact told (by simp) compareVersion_tells
    · exact told (by simp [Dialect.warnFunction]) warn_tells
    · exact told (by simp [Dialect.failFunction]) fail_tells
  · obtain rfl := List.mem_singleton.1 other
    have told {handle : Handler} (member : (f.name, handle) ∈ Dialect.monsterHunterWorld.handlers) :=
      told monsterHunterWorld_distinct member
    simp only [Dialect.monsterHunterWorld, Dialect.monsterHunterWorldCatalog, List.mem_cons,
      List.not_mem_nil, or_false] at declared told
    rcases declared with rfl | rfl | rfl | rfl | rfl | rfl
    · exact told (by simp) fileExists_tells
    · exact told (by simp) copy_tells
    · exact told (by simp) createDirectory_tells
    · exact told (by simp [Dialect.confirmFunction]) confirm_tells
    · exact told (by simp [Dialect.warnFunction]) warn_tells
    · exact told (by simp [Dialect.failFunction]) fail_tells

end Installation

/-- An installation without any files. -/
def nothingThere : Installation :=
  { files := {}, source := ⟨"", ["mod"]⟩, target := ⟨"", ["game"]⟩ }

end InstallScript
