import InstallScript.Proofs.Files.Handlers
import InstallScript.Proofs.Run.HostInvariants
import InstallScript.Proofs.Settings.Updates

/-!
Changes of settings files as confined work on files. What is done when a run is over stays between
the roots of the installation, whatever has come of the run (`Installation.settleEdits_confined`).
-/

namespace InstallScript

/-- The world with other files. -/
def World.withFiles (w : World Installation) (files : FileTree) : World Installation :=
  { w with host := w.host.withFiles files }

/-- What a finisher does, as work on files: what else comes of it, and the files that it leaves. -/
def Finisher.work (finisher : Finisher Installation) (result : Option RunResult)
    (w : World Installation) : FileTree → (Option RunResult × World Installation) × FileTree :=
  fun files =>
    let out := finisher.effect result (w.withFiles files)
    ((out.1, out.2.withFiles {}), out.2.host.files)

namespace Installation

/-! ## One file -/

/-- The settings in a file, by what stands at its path. -/
def settingsIn (p : Path) (found : Except FileFault (List String × Option FileEntry)) :
    Except IniFault Ini :=
  match FileTree.seen p found with
  | .error e => .error (.file e)
  | .ok (some (.file content)) => Ini.ofBytes content
  | .ok _ => .ok {}

theorem readSettings_eq_stat (files : FileTree) (p : Path) :
    readSettings files p = settingsIn p (files.stat p) := by
  rw [readSettings, FileTree.look_eq_stat]
  rfl

/-- The end of a change: what is written, if the directory for it could be made. -/
def putContent (p : Path) (content : List UInt8) :
    Option FileError → FileTree → Option IniFault × FileTree
  | some e, files => (some (.file e), files)
  | none, files =>
    let out := files.outcome (files.perform p (.write content))
    (out.1.map .file, out.2)

/-- Settings on their way to a file: why they do not get there, and the files that are left. -/
def putSettings (files : FileTree) (p : Path) :
    Except IniFault Ini → Option IniFault × FileTree
  | .error fault => (some fault, files)
  | .ok ini =>
    let made := files.ensured p.parent
    putContent p (Text.encodeUtf8 ini.text) made.1 made.2

theorem updateSettings_eq_put (files : FileTree) (p : Path) (edits : List IniEdit) :
    (updateSettings files p edits).swap =
      putSettings files p ((settingsIn p (files.stat p)).bind (editSettings · edits)) := by
  rw [← readSettings_eq_stat]
  unfold updateSettings
  cases (readSettings files p).bind (editSettings · edits) with
  | error fault => rfl
  | ok ini =>
    dsimp only [putSettings, putContent, FileTree.ensured]
    rcases files.ensureDirectory p.parent with ⟨made, _ | e⟩
    · dsimp only [Prod.swap, FileTree.perform]
      cases made.write p (Text.encodeUtf8 ini.text) <;> rfl
    · rfl

section

variable {r : Roots} {p : Path}

theorem updateSettings_confined (inTarget : r.InTarget p) (edits : List IniEdit) :
    Confined r fun files => (updateSettings files p edits).swap := by
  refine .of_eq (fun files => updateSettings_eq_put files p edits) (Confined.ask
    (fun (settings : Except IniFault Ini) files =>
      putSettings files p (settings.bind (editSettings · edits)))
    (.inr inTarget) (settingsIn p) fun settings => ?_)
  cases settings.bind (editSettings · edits) with
  | error fault => exact .done (some fault)
  | ok ini =>
    have put (e : Option FileError) :
        Confined r (putContent p (Text.encodeUtf8 ini.text) e) := by
      cases e with
      | some e => exact .done (some (IniFault.file e))
      | none =>
        exact .change inTarget _ (fun e files => (e.map IniFault.file, files)) fun e =>
          .done (e.map IniFault.file)
    exact (Confined.ensured_parent inTarget).bind put

end

/-! ## One file after another -/

/-- A run that is over, apart from the files. -/
abbrev Settling := RunResult × World Installation

/-- A run that is over, taken apart. -/
def apart (state : Settling) : Settling × FileTree :=
  ((state.1, state.2.withFiles {}), state.2.host.files)

theorem together_apart (state : Settling) :
    ((apart state).1.1, (apart state).1.2.withFiles (apart state).2) = state := rfl

/-- What a run records of the change of a file. -/
def recordUpdate (edits : List IniEdit) (file : List String) (state : Settling)
    (outcome : Option IniFault) : Settling :=
  match outcome with
  | none => (state.1, state.2.note .debug .settings
      s!"applied {(ownEdits edits file).length} INI edit(s) to {partsText file}")
  | some fault =>
    let path := state.2.host.target.join file
    let reason := fault.message path
    let message := s!"EditIni(): could not update {partsText file}: {reason}"
    ({ state.1 with warnings := state.1.warnings ++
        [updateWarning state.2.host.target state.2.context (file, fault)] },
      (state.2.note .warning .settings
        s!"could not apply INI edits to {partsText file}: {reason}").mapContext fun c =>
          c.addWarning message none "W501")

theorem apart_updateFile (edits : List IniEdit) (file : List String) (result : RunResult)
    (w : World Installation) (files : FileTree) :
    apart (updateFile edits (result, w.withFiles files) file) =
      let out := (updateSettings files (w.host.target.join file) (ownEdits edits file)).swap
      ((apart (recordUpdate edits file (result, w) out.1)).1, out.2) := by
  unfold updateFile ownEdits
  dsimp only
  rw [show (w.withFiles files).host.files = files from rfl,
    show (w.withFiles files).host.target = w.host.target from rfl]
  rcases updateSettings files (w.host.target.join file)
    (edits.filter fun e => e.file = file) with ⟨files', _ | fault⟩ <;> rfl

section

variable {r : Roots} (edits : List IniEdit)

theorem target_recordUpdate (file : List String) (state : Settling) (outcome : Option IniFault) :
    (apart (recordUpdate edits file state outcome)).1.2.host.target = state.2.host.target := by
  cases outcome <;> rfl

theorem updateFiles_confined {order : List (List String)}
    (inside : ∀ file ∈ order, ∃ parts, CleanParts parts ∧ file = r.inner ++ parts)
    (result : RunResult) {w : World Installation} (target : w.host.target = r.target) :
    Confined r fun files =>
      apart (order.foldl (updateFile edits) (result, w.withFiles files)) := by
  -- What a file records is known from the outcome of its change, whatever the tree is by then.
  induction order generalizing result w with
  | nil => exact .done (result, w.withFiles {})
  | cons file order ih =>
    obtain ⟨⟨parts, clean, eq⟩, later⟩ := List.forall_mem_cons.1 inside
    have inTarget : r.InTarget (w.host.target.join file) := ⟨parts, clean, by rw [target, eq]⟩
    have first := updateSettings_confined inTarget (ownEdits edits file)
    refine .of_eq (fun files => ?_) (first.bind fun outcome =>
      ih later (apart (recordUpdate edits file (result, w) outcome)).1.1
        ((target_recordUpdate edits file (result, w) outcome).trans target))
    rw [List.foldl_cons, ← together_apart (updateFile edits (result, w.withFiles files) file),
      apart_updateFile]

/-- What is done when a run is over is confined work. -/
theorem settleEdits_confined {directory : List String} {w : World Installation}
    (steady : Steady r w.host directory) (result : Option RunResult) :
    Confined r (settleEdits.work result w) := by
  have same (files : FileTree) : (w.withFiles files).host.pendingEdits = w.host.pendingEdits := rfl
  by_cases empty : w.host.pendingEdits = []
  · refine .of_eq (fun files => ?_) (.done (result, w.withFiles {}))
    unfold Finisher.work Finisher.effect settleEdits
    dsimp only
    rw [same, empty]
    cases result <;> rfl
  · have some' : w.host.pendingEdits.isEmpty = false := by simpa using empty
    cases result with
    | none =>
      refine .of_eq (fun files => ?_) (.done (none, w.withFiles {}))
      rw [Finisher.work, Finisher.effect, settleEdits, same, some']
      rfl
    | some result =>
      by_cases success : result.status = .success
      · have inside : ∀ file ∈ editedFiles w.host.pendingEdits,
            ∃ parts, CleanParts parts ∧ file = r.inner ++ parts := by
          intro file member
          obtain ⟨e, queued, rfl⟩ := mem_editedFiles.1 member
          exact steady.edits e queued
        refine .of_eq (fun files => ?_) ((updateFiles_confined w.host.pendingEdits inside result
          steady.rooted.target).bind fun state => .done (some state.1, dropEdits state.2))
        rw [Finisher.work, Finisher.effect, settleEdits, same, some']
        dsimp only
        rw [if_neg Bool.false_ne_true, if_pos success]
        rfl
      · let count := w.host.pendingEdits.length
        let message := s!"discarding {count} INI edit(s) after {result.status.name} run"
        refine .of_eq (fun files => ?_)
          (.done (some result, dropEdits ((w.withFiles {}).note .info .settings message)))
        rw [Finisher.work, Finisher.effect, settleEdits, same, some']
        dsimp only
        rw [if_neg Bool.false_ne_true, if_neg success]
        rfl

end

end Installation

end InstallScript
