import InstallScript.Dialect.Bundled
import InstallScript.Proofs.Files.Operations
import InstallScript.Proofs.Run.Memory

/-!
Handlers as confined work on files. Whatever a handler of a bundled dialect is called with, it works
on the files between the roots of its installation (`Installation.Confines`), as long as the current
directory is clean; and so do the changes of settings files when a run is over.
-/

namespace InstallScript

namespace Installation

/-- The installation with other files. -/
def withFiles (i : Installation) (files : FileTree) : Installation := { i with files }

/-- What a handler does, as work on files: what else comes of it, and the files that it leaves. -/
def Handler.work (handle : Handler) (arguments : Arguments) (directory : List String)
    (i : Installation) : FileTree → Response Installation × FileTree := fun files =>
  let response := handle arguments directory (i.withFiles files)
  (response.mapHost (·.withFiles {}), response.host.files)

/-- The installation has the given roots. -/
structure Rooted (r : Roots) (i : Installation) : Prop where
  source : i.source = r.source
  target : i.target = r.target
  inner : i.installRoot = r.inner

/-- Whatever it is called with in a clean directory, a handler does confined work. -/
def Confines (r : Roots) (handle : Handler) : Prop :=
  ∀ arguments directory i, Rooted r i → CleanParts directory →
    Confined r (handle.work arguments directory i)

/-- A handler that has nothing to do with files. -/
def AsideFromFiles (handle : Handler) : Prop :=
  ∀ arguments directory i files, handle arguments directory (withFiles i files) =
    (handle arguments directory (i.withFiles {})).mapHost (·.withFiles files)

section

variable {r : Roots} {i : Installation} {directory : List String}

theorem AsideFromFiles.confines {handle : Handler} (aside : AsideFromFiles handle) :
    Confines r handle := by
  intro arguments directory i _ _
  refine .of_eq (fun files => ?_) (.done
    ((handle arguments directory (i.withFiles {})).mapHost (·.withFiles {})))
  rw [Handler.work, aside]
  rfl

/-! ## Paths -/

theorem sourcePath_eq_ok (clean : CleanParts directory) {path : String} {p : Path}
    (leads : i.sourcePath directory path = .ok p) :
    ∃ inside, CleanParts inside ∧ p = i.source.join inside := by
  unfold sourcePath at leads
  split at leads
  · rename_i parts resolves
    cases leads
    exact ⟨parts, cleanParts_of_resolvePath clean resolves, rfl⟩
  · cases leads

theorem Rooted.inSource (rooted : Rooted r i) (clean : CleanParts directory) {path : String}
    {p : Path} (leads : i.sourcePath directory path = .ok p) : r.InSource p := by
  obtain ⟨inside, cleanInside, rfl⟩ := sourcePath_eq_ok clean leads
  exact ⟨inside, cleanInside, by rw [rooted.source]⟩

theorem targetParts_eq_ok {path : String} {parts : List String}
    (leads : i.targetParts path = .ok parts) :
    ∃ inside, CleanParts inside ∧ parts = i.installRoot ++ inside := by
  unfold targetParts at leads
  split at leads
  · rename_i inside resolves
    cases leads
    exact ⟨inside, cleanParts_of_resolvePath .nil resolves, rfl⟩
  · cases leads

theorem Rooted.inTarget (rooted : Rooted r i) {path : String} {parts : List String}
    (leads : i.targetParts path = .ok parts) : r.InTarget (i.target.join parts) := by
  obtain ⟨inside, clean, rfl⟩ := targetParts_eq_ok leads
  exact ⟨inside, clean, by rw [rooted.target, rooted.inner]⟩

/-! ## Looking -/

/-- The outcome of a look, as a handler takes it. -/
def lookedAt (p : Path) (found : Except FileFault (List String × Option FileEntry)) :
    Except Outcome (Option FileEntry) :=
  (FileTree.seen p found).mapError fun e => .crash (.file e)

section

variable (i : Installation) (files : FileTree)

theorem look_withFiles (p : Path) : (i.withFiles files).look p = lookedAt p (files.stat p) := by
  rw [look, lookedAt, ← FileTree.look_eq_stat]
  rfl

theorem sourcePath_withFiles (directory : List String) (path : String) :
    (i.withFiles files).sourcePath directory path = i.sourcePath directory path := rfl

theorem targetParts_withFiles (path : String) :
    (i.withFiles files).targetParts path = i.targetParts path := rfl

theorem target_withFiles : (i.withFiles files).target = i.target := rfl

end

theorem fileExists_confines : Confines r fileExists := by
  intro arguments directory i rooted clean
  unfold Handler.work fileExists
  simp only [sourcePath_withFiles, look_withFiles]
  cases leads : i.sourcePath directory (arguments.string "path") with
  | error outcome => exact .done ((i.withFiles {}).respond directory outcome)
  | ok p =>
    exact Confined.ask (fun found files => ((i.withFiles {}).conclude directory (do
      let found ← found
      return .value (.bool found.isSome)), files)) (.inl (rooted.inSource clean leads))
      (lookedAt p) fun found => .done _

/-- What comes of making a directory of the mod the current one. -/
def enter (i : Installation) (directory : List String) (path : String)
    (found : Except Outcome (Option FileEntry)) : Response Installation :=
  let checked : Except Outcome Unit := do
    if (← found) = some .directory then return ()
    else throw (.failure s!"no such directory in the mod: {path}")
  match checked, resolvePath path directory with
  | .ok _, .ok parts => i.respond parts nothing
  | .ok _, .error fault => i.respond directory (.crash (.path fault))
  | .error outcome, _ => i.respond directory outcome

theorem setDirectory_confines : Confines r setDirectory := by
  intro arguments directory i rooted clean
  unfold Handler.work setDirectory
  simp only [sourcePath_withFiles, look_withFiles]
  cases leads : i.sourcePath directory (arguments.string "path") with
  | error outcome => exact .done ((i.withFiles {}).respond directory outcome)
  | ok p =>
    refine .of_eq (fun files => ?_) (Confined.ask (fun found files =>
      ((i.withFiles {}).enter directory (arguments.string "path") found, files))
      (.inl (rooted.inSource clean leads)) (lookedAt p) fun found => .done _)
    unfold enter
    simp only [bind, Except.bind]
    rcases lookedAt p (files.stat p) with outcome | found
    · rfl
    · by_cases stands : found = some .directory
      · simp only [if_pos stands]
        cases resolvePath (arguments.string "path") directory <;> rfl
      · simp only [if_neg stands]
        rfl

/-! ## Changing files -/

/-- The second half of a copy: what is missing above the target is made, and then the copy. -/
def copyWork (files : FileTree) (src dst : Path) : Option CopyError × FileTree :=
  match files.ensured dst.parent with
  | (some e, files') => (some (.file e), files')
  | (none, files') => files'.copied src dst

theorem copyWork_confined {src dst : Path} (inSource : r.InSource src) (inTarget : r.InTarget dst) :
    Confined r fun files => copyWork files src dst := by
  refine .of_eq (fun files => ?_) ((Confined.ensured_parent inTarget).bind (g := fun e files =>
    match e with
    | some e => (some (CopyError.file e), files)
    | none => files.copied src dst) fun e => ?_)
  · unfold copyWork
    rcases files.ensured dst.parent with ⟨_ | e, files'⟩ <;> rfl
  · cases e with
    | some e => exact .done (some (CopyError.file e))
    | none => exact .copied inSource inTarget

/-- What comes of a copy that may be made. -/
def afterCopy (i : Installation) (directory : List String) (source destination : String)
    (src : Path) (parts : List String) : Option CopyError → Response Installation
  | some e => i.respond directory (.failure s!"cannot copy {source} to {destination}: {e.reason}")
  | none =>
    { outcome := nothing, directory, host := { i with installed := i.installed ++ [parts] }
      log := [⟨.debug, .files, s!"copied {src.text} -> {(i.target.join parts).text}"⟩] }

/-- Whether a copy may be made, by what stands at its two paths. -/
theorem copyPlan_withFiles {source destination : String} {src : Path} {parts : List String}
    (leads : i.sourcePath directory source = .ok src)
    (leads' : i.targetParts destination = .ok parts) (overwrite : Bool) (files : FileTree) :
    (i.withFiles files).copyPlan directory source destination overwrite =
      match lookedAt src (files.stat src) with
      | .error outcome => .error outcome
      | .ok none => .error (.failure s!"source not found: {source}")
      | .ok (some _) =>
        match lookedAt (i.target.join parts) (files.stat (i.target.join parts)) with
        | .error outcome => .error outcome
        | .ok found =>
          if found.isSome && !overwrite then .error (.failure s!"destination exists: {destination}")
          else .ok (src, parts) := by
  unfold copyPlan
  simp only [sourcePath_withFiles, targetParts_withFiles, look_withFiles, leads, leads', bind,
    Except.bind]
  rcases lookedAt src (files.stat src) with outcome | _ | entry
  · rfl
  · rfl
  · simp only [target_withFiles, Option.isNone_some, Bool.false_eq_true, if_false]
    rcases lookedAt (i.target.join parts) (files.stat (i.target.join parts)) with outcome | found
    · rfl
    · dsimp only
      cases found.isSome && !overwrite <;> rfl

theorem copyPlan_of_error {source : String} {outcome : Outcome}
    (leads : i.sourcePath directory source = .error outcome) (destination : String)
    (overwrite : Bool) : i.copyPlan directory source destination overwrite = .error outcome := by
  unfold copyPlan
  simp only [leads, bind, Except.bind]

theorem copyPlan_of_error' {source destination : String} {src : Path} {outcome : Outcome}
    (leads : i.sourcePath directory source = .ok src)
    (leads' : i.targetParts destination = .error outcome) (overwrite : Bool) :
    i.copyPlan directory source destination overwrite = .error outcome := by
  unfold copyPlan
  simp only [leads, leads', bind, Except.bind]

/-- The copy of something that stands in the mod, by what stands at its target. -/
def copyOnto (i : Installation) (directory : List String) (source destination : String)
    (overwrite : Bool) (src : Path) (parts : List String)
    (found : Except Outcome (Option FileEntry)) (files : FileTree) :
    Response Installation × FileTree :=
  match found with
  | .error outcome => (i.respond directory outcome, files)
  | .ok found =>
    if found.isSome && !overwrite then
      (i.respond directory (.failure s!"destination exists: {destination}"), files)
    else
      let out := copyWork files src (i.target.join parts)
      (i.afterCopy directory source destination src parts out.1, out.2)

/-- A copy, by what stands at its source. -/
def copyFrom (i : Installation) (directory : List String) (source destination : String)
    (overwrite : Bool) (src : Path) (parts : List String)
    (found : Except Outcome (Option FileEntry)) (files : FileTree) :
    Response Installation × FileTree :=
  match found with
  | .error outcome => (i.respond directory outcome, files)
  | .ok none => (i.respond directory (.failure s!"source not found: {source}"), files)
  | .ok (some _) => i.copyOnto directory source destination overwrite src parts
      (lookedAt (i.target.join parts) (files.stat (i.target.join parts))) files

theorem copyInto_eq (files : FileTree) (src dst : Path) :
    copyInto files src dst = (copyWork files src dst).swap := by
  unfold copyInto copyWork FileTree.ensured FileTree.copied
  rcases files.ensureDirectory dst.parent with ⟨files', _ | e⟩ <;> rfl

theorem copy_work {arguments : Arguments} {src : Path} {parts : List String}
    (leads : i.sourcePath directory (arguments.string "source") = .ok src)
    (leads' : i.targetParts (arguments.string "destination") = .ok parts) (files : FileTree) :
    copy.work arguments directory i files = (i.withFiles {}).copyFrom directory
      (arguments.string "source") (arguments.string "destination") (arguments.flag "overwrite")
      src parts (lookedAt src (files.stat src)) files := by
  unfold Handler.work copy copyFrom copyOnto
  dsimp only
  rw [copyPlan_withFiles leads leads']
  rcases lookedAt src (files.stat src) with outcome | _ | entry
  · rfl
  · rfl
  · simp only [target_withFiles]
    rcases lookedAt (i.target.join parts) (files.stat (i.target.join parts)) with outcome | found
    · rfl
    · dsimp only
      cases found.isSome && !arguments.flag "overwrite" with
      | true => rfl
      | false =>
        rw [if_neg Bool.false_ne_true, if_neg Bool.false_ne_true]
        dsimp only
        rw [copyInto_eq]
        have same : (i.withFiles files).files = files := rfl
        rw [same]
        rcases copyWork files src (i.target.join parts) with ⟨_ | e, files'⟩ <;> rfl

theorem copy_confines : Confines r copy := by
  intro arguments directory i rooted clean
  cases leads : i.sourcePath directory (arguments.string "source") with
  | error outcome =>
    refine .of_eq (fun files => ?_) (.done ((i.withFiles {}).respond directory outcome))
    unfold Handler.work copy
    dsimp only
    rw [copyPlan_of_error (i := i.withFiles files) leads]
    rfl
  | ok src =>
    cases leads' : i.targetParts (arguments.string "destination") with
    | error outcome =>
      refine .of_eq (fun files => ?_) (.done ((i.withFiles {}).respond directory outcome))
      unfold Handler.work copy
      dsimp only
      rw [copyPlan_of_error' (i := i.withFiles files) leads leads']
      rfl
    | ok parts =>
      have inSource := rooted.inSource clean leads
      have inTarget := rooted.inTarget leads'
      refine .of_eq (copy_work leads leads') (Confined.ask _ (.inl inSource) (lookedAt src)
        fun found => ?_)
      rcases found with outcome | _ | entry
      · exact .done ((i.withFiles {}).respond directory outcome)
      · exact .done ((i.withFiles {}).respond directory (.failure _))
      · refine Confined.ask ((i.withFiles {}).copyOnto directory
          (arguments.string "source") (arguments.string "destination")
          (arguments.flag "overwrite") src parts) (.inr inTarget)
          (lookedAt (i.target.join parts)) fun found => ?_
        rcases found with outcome | found
        · exact .done ((i.withFiles {}).respond directory outcome)
        · unfold copyOnto
          dsimp only
          split
          · exact .done ((i.withFiles {}).respond directory (.failure _))
          · exact (copyWork_confined inSource inTarget).bind fun e => .done _

/-- What comes of making a directory. -/
def afterCreation (i : Installation) (directory : List String) (path : String) :
    Option FileError → Response Installation
  | none => i.respond directory nothing
  | some e => i.respond directory (.failure s!"cannot create {path}: {e.fault.message}")

theorem createDirectory_confines : Confines r createDirectory := by
  intro arguments directory i rooted clean
  unfold Handler.work createDirectory
  simp only [targetParts_withFiles]
  cases leads : i.targetParts (arguments.string "path") with
  | error outcome => exact .done ((i.withFiles {}).respond directory outcome)
  | ok parts =>
    refine .of_eq (fun files => ?_) ((Confined.ensured (rooted.inTarget leads)).bind
      (g := fun e files => ((i.withFiles {}).afterCreation directory (arguments.string "path") e,
        files)) fun e => .done _)
    have same : (i.withFiles files).files = files := rfl
    simp only [same, target_withFiles]
    unfold FileTree.ensured afterCreation
    rcases files.ensureDirectory (i.target.join parts) with ⟨files', _ | e⟩ <;> rfl

/-- What comes of a deletion. -/
def afterDeletion (i : Installation) (directory : List String) (path : String) :
    Option FileError → Response Installation
  | none => i.respond directory nothing
  | some e => i.respond directory (.failure s!"cannot delete {path}: {e.fault.message}")

/-- The deletion of a file, by what stands at its path. -/
def deleteAt (i : Installation) (directory : List String) (path : String) (p : Path)
    (found : Except Outcome (Option FileEntry)) (files : FileTree) :
    Response Installation × FileTree :=
  match found with
  | .error outcome => (i.respond directory outcome, files)
  | .ok (some (.file _)) =>
    let out := files.outcome (files.perform p .remove)
    (i.afterDeletion directory path out.1, out.2)
  | .ok _ => (i.respond directory (.failure s!"no such file: {path}"), files)

theorem deleteFile_confines : Confines r deleteFile := by
  intro arguments directory i rooted clean
  unfold Handler.work deleteFile
  simp only [targetParts_withFiles, look_withFiles, target_withFiles, bind, Except.bind]
  cases leads : i.targetParts (arguments.string "path") with
  | error outcome => exact .done ((i.withFiles {}).respond directory outcome)
  | ok parts =>
    have inTarget := rooted.inTarget leads
    refine .of_eq (fun files => ?_) (Confined.ask ((i.withFiles {}).deleteAt directory
      (arguments.string "path") (i.target.join parts)) (.inr inTarget)
      (lookedAt (i.target.join parts)) fun found => ?_)
    · unfold deleteAt
      dsimp only
      rcases lookedAt (i.target.join parts) (files.stat (i.target.join parts)) with
        outcome | _ | content | _
      · rfl
      · rfl
      · show _ = ((i.withFiles {}).afterDeletion directory (arguments.string "path")
          (files.outcome (files.remove (i.target.join parts))).1,
            (files.outcome (files.remove (i.target.join parts))).2)
        have same : (i.withFiles files).files = files := rfl
        simp only [same]
        cases files.remove (i.target.join parts) <;> rfl
      · rfl
    · rcases found with outcome | _ | content | _
      · exact .done ((i.withFiles {}).respond directory outcome)
      · exact .done ((i.withFiles {}).respond directory (.failure _))
      · exact Confined.change inTarget .remove (fun e files =>
          ((i.withFiles {}).afterDeletion directory (arguments.string "path") e, files))
          fun e => .done _
      · exact .done ((i.withFiles {}).respond directory (.failure _))

/-! ## The others -/

theorem reportVersion_aside : AsideFromFiles reportVersion := fun _ _ _ _ => rfl

theorem compareVersion_aside : AsideFromFiles compareVersion := by
  intro arguments directory i files
  unfold compareVersion
  cases compareVersions (arguments.string "left") (arguments.string "right") <;> rfl

theorem editIni_aside : AsideFromFiles editIni := by
  intro arguments directory i files
  unfold editIni
  simp only [targetParts_withFiles]
  cases i.targetParts (arguments.string "file") <;> rfl

theorem confirm_aside : AsideFromFiles confirm := fun _ _ _ _ => rfl

theorem choose_aside : AsideFromFiles choose := by
  intro arguments directory i files
  unfold choose
  dsimp only
  split <;> rfl

theorem warn_aside : AsideFromFiles warn := fun _ _ _ _ => rfl

theorem fail_aside : AsideFromFiles fail := fun _ _ _ _ => rfl

/-! ## What stays -/

/-- The installation has its roots, the current directory is clean, and the changes that are queued
are about files below the root of writes. -/
structure Steady (r : Roots) (i : Installation) (directory : List String) : Prop where
  rooted : Rooted r i
  clean : CleanParts directory
  edits : ∀ e ∈ i.pendingEdits, ∃ inside, CleanParts inside ∧ e.file = r.inner ++ inside

/-- A handler that keeps what is steady. -/
def KeepsSteady (r : Roots) (handle : Handler) : Prop :=
  ∀ arguments directory i, Steady r i directory →
    Steady r (handle arguments directory i).host (handle arguments directory i).directory

/-- A handler that changes nothing but the files and the list of what has been copied. -/
def OnlyFiles (handle : Handler) : Prop :=
  ∀ arguments directory i, (handle arguments directory i).directory = directory ∧
    ∃ files installed, (handle arguments directory i).host = { i with files, installed }

theorem OnlyFiles.keepsSteady {handle : Handler} (only : OnlyFiles handle) :
    KeepsSteady r handle := by
  intro arguments directory i ⟨⟨source, target, inner⟩, clean, edits⟩
  obtain ⟨same, files, installed, host⟩ := only arguments directory i
  rw [same, host]
  exact ⟨⟨source, target, inner⟩, clean, edits⟩

theorem setDirectory_keepsSteady : KeepsSteady r setDirectory := by
  intro arguments directory i ⟨rooted, clean, edits⟩
  unfold setDirectory
  dsimp only
  split
  · rename_i parts _ resolves
    exact ⟨rooted, cleanParts_of_resolvePath clean resolves, edits⟩
  · exact ⟨rooted, clean, edits⟩
  · exact ⟨rooted, clean, edits⟩

theorem editIni_keepsSteady : KeepsSteady r editIni := by
  intro arguments directory i ⟨rooted, clean, edits⟩
  unfold editIni
  split
  · exact ⟨rooted, clean, edits⟩
  · rename_i file leads
    refine ⟨⟨rooted.source, rooted.target, rooted.inner⟩, clean, List.forall_mem_append.2
      ⟨edits, List.forall_mem_singleton.2 ?_⟩⟩
    obtain ⟨inside, clean', eq⟩ := targetParts_eq_ok leads
    exact ⟨inside, clean', by rw [eq, rooted.inner]⟩

theorem fileExists_onlyFiles : OnlyFiles fileExists := fun _ _ _ => ⟨rfl, _, _, rfl⟩

theorem copy_onlyFiles : OnlyFiles copy := by
  intro arguments directory i
  unfold copy
  dsimp only
  split
  · exact ⟨rfl, _, _, rfl⟩
  · split <;> exact ⟨rfl, _, _, rfl⟩

theorem createDirectory_onlyFiles : OnlyFiles createDirectory := by
  intro arguments directory i
  unfold createDirectory
  dsimp only
  split
  · exact ⟨rfl, _, _, rfl⟩
  · split <;> exact ⟨rfl, _, _, rfl⟩

theorem deleteFile_onlyFiles : OnlyFiles deleteFile := by
  intro arguments directory i
  unfold deleteFile
  dsimp only
  split <;> exact ⟨rfl, _, _, rfl⟩

theorem reportVersion_onlyFiles : OnlyFiles reportVersion := fun _ _ _ => ⟨rfl, _, _, rfl⟩

theorem compareVersion_onlyFiles : OnlyFiles compareVersion := by
  intro arguments directory i
  unfold compareVersion
  split <;> exact ⟨rfl, _, _, rfl⟩

theorem confirm_onlyFiles : OnlyFiles confirm := fun _ _ _ => ⟨rfl, _, _, rfl⟩

theorem choose_onlyFiles : OnlyFiles choose := by
  intro arguments directory i
  unfold choose
  dsimp only
  split <;> exact ⟨rfl, _, _, rfl⟩

theorem warn_onlyFiles : OnlyFiles warn := fun _ _ _ => ⟨rfl, _, _, rfl⟩

theorem fail_onlyFiles : OnlyFiles fail := fun _ _ _ => ⟨rfl, _, _, rfl⟩

/-! ## Hosts -/

/-- A function of a host does what its handler does, or nothing. -/
theorem host_cases {handlers : List (String × Handler)} (f : FunctionSpec) :
    (∃ entry ∈ handlers, host handlers f = entry.2) ∨
      host handlers f = fun _ directory i => i.respond directory nothing := by
  cases found : handlers.find? fun entry => Text.fold entry.1 = Text.fold f.name with
  | none =>
    refine .inr (funext fun arguments => funext fun directory => funext fun i => ?_)
    rw [host, handler?, found]
    rfl
  | some entry =>
    refine .inl ⟨entry, List.mem_of_find?_eq_some found, ?_⟩
    refine funext fun arguments => funext fun directory => funext fun i => ?_
    rw [host, handler?, found]
    rfl

/-- A host each of whose handlers keeps what is steady does so. -/
theorem host_keepsSteady {handlers : List (String × Handler)}
    (keep : ∀ entry ∈ handlers, KeepsSteady r entry.2) (f : FunctionSpec) :
    KeepsSteady r (host handlers f) := by
  rcases host_cases f with ⟨entry, member, same⟩ | same
  · rw [same]
    exact keep entry member
  · rw [same]
    exact fun _ _ _ steady => steady

/-- A host each of whose handlers does confined work does so. -/
theorem host_confines {handlers : List (String × Handler)}
    (confine : ∀ entry ∈ handlers, Confines r entry.2) (f : FunctionSpec) :
    Confines r (host handlers f) := by
  rcases host_cases f with ⟨entry, member, same⟩ | same
  · rw [same]
    exact confine entry member
  · rw [same]
    exact AsideFromFiles.confines fun _ _ _ _ => rfl

end

end Installation

open Installation in
/-- The handlers of the bundled dialects do confined work and keep what is steady. -/
theorem Dialect.bundled_handlers {d : Dialect} (bundled : d ∈ bundled) (r : Roots) :
    ∀ entry ∈ d.handlers, Confines r entry.2 ∧ KeepsSteady r entry.2 := by
  have exists' := And.intro (@fileExists_confines r) (fileExists_onlyFiles.keepsSteady (r := r))
  have copies := And.intro (@copy_confines r) (copy_onlyFiles.keepsSteady (r := r))
  have creates := And.intro (@createDirectory_confines r)
    (createDirectory_onlyFiles.keepsSteady (r := r))
  have confirms := And.intro (confirm_aside.confines (r := r))
    (confirm_onlyFiles.keepsSteady (r := r))
  have warns := And.intro (warn_aside.confines (r := r)) (warn_onlyFiles.keepsSteady (r := r))
  have fails := And.intro (fail_aside.confines (r := r)) (fail_onlyFiles.keepsSteady (r := r))
  rcases List.mem_cons.1 bundled with rfl | other
  · simp only [stateOfDecay, List.forall_mem_cons]
    exact ⟨exists', copies, creates, ⟨deleteFile_confines, deleteFile_onlyFiles.keepsSteady⟩,
      ⟨setDirectory_confines, setDirectory_keepsSteady⟩,
      ⟨editIni_aside.confines, editIni_keepsSteady⟩, confirms,
      ⟨choose_aside.confines, choose_onlyFiles.keepsSteady⟩,
      ⟨reportVersion_aside.confines, reportVersion_onlyFiles.keepsSteady⟩,
      ⟨compareVersion_aside.confines, compareVersion_onlyFiles.keepsSteady⟩, warns, fails,
      List.forall_mem_nil _⟩
  · obtain rfl := List.mem_singleton.1 other
    simp only [monsterHunterWorld, List.forall_mem_cons]
    exact ⟨exists', copies, creates, confirms, warns, fails, List.forall_mem_nil _⟩

end InstallScript
