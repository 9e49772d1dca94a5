import InstallScript.Proofs.Files.Below
import InstallScript.Proofs.Settings.Read
import InstallScript.Proofs.Settings.Updates
import InstallScript.Proofs.Settings.Written

/-!
What the settings files hold after their changes. A file is read when it has its turn, and reads the
same then as before the first turn (`Installation.ChangesOnly.readSettings`). What is written reads
back as what was meant if and only if the last changes of all options can stand in a file
(`Installation.reads_back_iff`).
-/

namespace InstallScript

/-! ## Places in closed trees -/

namespace FileTree

variable {t : FileTree}

/-- In a closed tree names that are not too long lead down to whatever stands there. -/
theorem Closed.locateFrom_of_get? (closed : t.Closed) {here rest : List String}
    (down : ".." ∉ rest) (short : ∀ name ∈ rest, ¬ nameLimit < name.utf8ByteSize)
    {entry : FileEntry} (stands : t.get? (here ++ rest) = some entry) :
    t.locateFrom here rest = .ok (here ++ rest) := by
  induction rest generalizing here with
  | nil => rw [List.append_nil, FileTree.locateFrom]
  | cons name rest ih =>
    obtain ⟨isFirst, down⟩ := not_or.1 (mt List.mem_cons.2 down)
    obtain ⟨short', short⟩ := List.forall_mem_cons.1 short
    rw [FileTree.locateFrom, closed.get?_above (List.cons_ne_nil _ _) stands]
    dsimp only
    rw [if_neg (Ne.symm isFirst), if_neg short']
    rw [List.append_cons] at stands
    rw [ih down short stands, ← List.append_cons]

/-- A path that leads somewhere has no component that is too long. -/
theorem short_of_locateFrom {here rest place : List String} (down : ".." ∉ rest)
    (leads : t.locateFrom here rest = .ok place) :
    ∀ name ∈ rest, ¬ nameLimit < name.utf8ByteSize := by
  induction rest generalizing here with
  | nil => exact nofun
  | cons name rest ih =>
    obtain ⟨isFirst, down⟩ := not_or.1 (mt List.mem_cons.2 down)
    rw [locateFrom] at leads
    split at leads
    · cases leads
    · cases leads
    · rw [if_neg (Ne.symm isFirst)] at leads
      split at leads
      · cases leads
      · rename_i short
        exact List.forall_mem_cons.2 ⟨short, ih down leads⟩

/-- Below a directory a path leads to whatever stands at its place, if it does so in a tree with
more directories. -/
theorem Closed.locate_of_later (closed : t.Closed) {t' : FileTree} (keeps : t.KeepsDirectories t')
    {p : Path} (directory : t.find? p = some .directory) {rest place : List String}
    (down : ".." ∉ rest) (leads : t'.locate (p.join rest) = .ok place) {entry : FileEntry}
    (stands : t.get? place = some entry) : t.locate (p.join rest) = .ok place := by
  obtain rfl := place_of_locate leads
  -- Both trees lead to the directory alike. That the names below it are short the later tree shows;
  -- that there are directories on the way is known of the closed one.
  obtain ⟨toDirectory, -⟩ := find?_eq_some directory
  have toDirectory' := keeps.locate toDirectory
  rw [Path.place_join _ down] at stands leads ⊢
  unfold FileTree.locate at toDirectory toDirectory' leads ⊢
  split at leads
  · cases leads
  · rename_i fits
    rw [if_neg fits]
    split at toDirectory
    · cases toDirectory
    · rename_i fits'
      rw [if_neg fits'] at toDirectory'
      rw [Path.join] at leads ⊢
      rw [locateFrom_append_eq toDirectory'] at leads
      rw [locateFrom_append_eq toDirectory]
      exact closed.locateFrom_of_get? down (short_of_locateFrom down leads) stands

end FileTree

namespace Installation

/-! ## Reading again -/

section

variable {files files' : FileTree} {target : Path} {place file : List String}

theorem readSettings_of_noFile {p : Path} (noFile : ∀ content, files.find? p ≠ some (.file content))
    (short : files.locate p ≠ .error .nameTooLong) : readSettings files p = .ok {} := by
  unfold readSettings FileTree.look
  unfold FileTree.find? at noFile
  split at noFile
  · rename_i place leads
    rw [leads]
    dsimp only
    split
    · rename_i other
      cases other
    · rename_i content stands
      exact absurd (Except.ok.inj stands) (noFile content)
    · rfl
  · rename_i fault leads
    rw [leads] at short ⊢
    split
    · rename_i e other
      cases fault <;> first | exact absurd rfl short | cases other
    · rename_i content other
      cases fault <;> cases other
    · rfl

/-- What is read after the change of another file is what is read before it. -/
theorem ChangesOnly.readSettings (only : ChangesOnly place files files') (closed : files.Closed)
    (directory : files.find? target = some .directory) (down : ".." ∉ file)
    (differs : (target.join file).place ≠ place) {ini : Ini}
    (reads : readSettings files' (target.join file) = .ok ini) :
    Installation.readSettings files (target.join file) = .ok ini := by
  have short : files.locate (target.join file) ≠ .error .nameTooLong := by
    intro long
    have long' := only.directories.tooLong long
    rw [Installation.readSettings, FileTree.look, long'] at reads
    cases reads
  have short' : files'.locate (target.join file) ≠ .error .nameTooLong := by
    intro long
    rw [Installation.readSettings, FileTree.look, long] at reads
    cases reads
  by_cases isFile : ∃ content, files.find? (target.join file) = some (.file content)
  · obtain ⟨content, stands⟩ := isFile
    rwa [readSettings_of_file stands, ← readSettings_of_file (only.find? differs stands)]
  · have noFile (content : List UInt8) :
        files.find? (target.join file) ≠ some (.file content) := fun stands =>
      isFile ⟨content, stands⟩
    have noFile' (content : List UInt8) :
        files'.find? (target.join file) ≠ some (.file content) := by
      intro stands
      obtain ⟨leads, stands⟩ := FileTree.find?_eq_some stands
      have before := only.noNewFiles differs stands
      have leads := closed.locate_of_later only.directories directory down leads before
      exact noFile content ((FileTree.find?_of_locate leads).trans before)
    rw [readSettings_of_noFile noFile' short'] at reads
    rw [readSettings_of_noFile noFile short, reads]

end

theorem updateSettings_changes (files : FileTree) (p : Path) (edits : List IniEdit) :
    files.Changes (updateSettings files p edits).1 := by
  have made := files.ensureDirectory_changes p.parent
  unfold updateSettings
  split
  · exact .refl
  · split
    · rename_i files' e eq
      rwa [eq] at made
    · rename_i files' eq
      rw [eq] at made
      split
      · rename_i files'' writes
        exact made.trans (FileTree.write_change writes).changes
      · exact made

/-! ## The written file -/

section

variable {target : Path} {edits : List IniEdit} {files final : FileTree}
  {order : List (List String)} {failures : List (List String × IniFault)}

/-- What a change writes. -/
theorem updateSettings_writes {files' : FileTree} {p : Path}
    (updates : updateSettings files p edits = (files', none)) :
    ∃ old new, readSettings files p = .ok old ∧ editSettings old edits = .ok new ∧
      files'.find? p = some (.file (Text.encodeUtf8 new.text)) := by
  obtain ⟨old, new, made, reads, edited, -, writes⟩ := updateSettings_eq_ok updates
  have change := FileTree.write_change writes
  obtain ⟨leads, -, rfl⟩ := FileTree.write_eq_ok writes
  refine ⟨old, new, reads, edited, ?_⟩
  rw [FileTree.find?_of_locate (change.keepsDirectories.locate leads),
    made.get?_put_self _ change.below]

/-- In the second tree a file holds what it held in the first one, with its changes made. -/
def WritesTo (target : Path) (edits : List IniEdit) (files final : FileTree) (file : List String) :
    Prop :=
  ∃ old new, readSettings files (target.join file) = .ok old ∧
    editSettings old (ownEdits edits file) = .ok new ∧
      final.find? (target.join file) = some (.file (Text.encodeUtf8 new.text))

/-- It makes no difference whether another file has its turn first. -/
theorem WritesTo.before {files' : FileTree} {file first : List String} {outcome : Option IniFault}
    (writes : WritesTo target edits files' final file)
    (updates : updateSettings files (target.join first) (ownEdits edits first) = (files', outcome))
    (closed : files.Closed) (directory : files.find? target = some .directory)
    (down : ".." ∉ file) (down' : ".." ∉ first) (differs : file ≠ first) :
    WritesTo target edits files final file := by
  obtain ⟨old, new, reads, both⟩ := writes
  have only := updateSettings_changesOnly updates
  have apart := place_ne target down down' differs
  exact ⟨old, new, only.readSettings closed directory down apart reads, both⟩

/-- A file that does not fail holds what it held before the first turn, with its changes made. -/
theorem Updated.writesTo (updated : Updated target edits files order final failures)
    (downs : ∀ file ∈ order, ".." ∉ file) (once : order.Nodup) (closed : files.Closed)
    (directory : files.find? target = some .directory) {file : List String}
    (edited : file ∈ order) (succeeded : file ∉ failures.map (·.1)) :
    WritesTo target edits files final file := by
  -- The turns before that of the file keep the tree closed and the directory of the game; those
  -- after it leave the file alone.
  induction updated with
  | nil => cases edited
  | @changed files files' final first rest failures updates later ih =>
    obtain ⟨down, downsLater⟩ := List.forall_mem_cons.1 downs
    obtain ⟨fresh, onceLater⟩ := List.nodup_cons.1 once
    have changes := updateSettings_changes files (target.join first) (ownEdits edits first)
    rw [updates] at changes
    rcases List.mem_cons.1 edited with same | member
    · subst same
      obtain ⟨old, new, reads, edited, stands⟩ := updateSettings_writes updates
      exact ⟨old, new, reads, edited, later.find?_of_notMem downsLater down fresh stands⟩
    · have differs : file ≠ first := by
        rintro rfl
        exact fresh member
      have writes := ih downsLater onceLater (changes.closed closed)
        (changes.keepsDirectories.find? directory) member succeeded
      exact writes.before updates closed directory (downsLater file member) down differs
  | @failed files files' final first rest failures fault fails later ih =>
    obtain ⟨down, downsLater⟩ := List.forall_mem_cons.1 downs
    obtain ⟨fresh, onceLater⟩ := List.nodup_cons.1 once
    have changes := updateSettings_changes files (target.join first) (ownEdits edits first)
    rw [fails] at changes
    obtain ⟨differs, succeeded⟩ := not_or.1 (mt List.mem_cons.2 succeeded)
    have member := (List.mem_cons.1 edited).resolve_left differs
    have writes := ih downsLater onceLater (changes.closed closed)
      (changes.keepsDirectories.find? directory) member succeeded
    exact writes.before fails closed directory (downsLater file member) down differs

/-- What is written for changed settings reads back as what was meant, the last change of each
option and all else as before, if and only if the last changes of all options can stand in a file. -/
theorem reads_back_iff {old new : Ini} (plain : old.Plain)
    (edited : editSettings old edits = .ok new) :
    (∃ ini, Ini.ofBytes (Text.encodeUtf8 new.text) = .ok ini ∧ ∀ header key,
      ini.get? header key = (lastQueued edits header key).or (old.get? header key)) ↔
        PlainEdits edits := by
  constructor
  · rintro ⟨ini, reads, holds⟩ header key value last
    have isPlain := Ini.plain_of_ofBytes reads
    have given : ini.get? header key = some value := by rw [holds, last, Option.some_or]
    obtain ⟨options, found, -⟩ := IniFile.get?_eq_some given
    obtain ⟨e, queued, rfl, -, -⟩ := exists_of_lastQueued last
    have other := reserved_editSettings plain.unique edited e queued
    rw [IniFile.options?, if_neg other] at found
    have member : e.header ∈ ini.headers :=
      IniFile.lookup_isSome_iff.1 (Option.isSome_iff_exists.2 ⟨options, found⟩)
    exact ⟨isPlain.headers _ member, isPlain.options given⟩
  · intro plainEdits
    refine ⟨new, Ini.ofBytes_text (plain_editSettings plain plainEdits edited), fun header key => ?_⟩
    exact get?_editSettings plain.unique
      (fun e member => (plainEdits.headers e member).nonempty) edited header key

end

end Installation

end InstallScript
