import InstallScript.Proofs.Files.Confined
import InstallScript.Proofs.Settings.Edited
import InstallScript.Proofs.Settings.Read

/-!
Settings files one after another. A file is changed as a whole, or left as it is with a warning and
perhaps with new directories above it; the others are not touched by it. So what comes of the files
is a chain of trees with one link for each file (`Installation.Updated`), whatever goes wrong with
some of them.
-/

namespace InstallScript

/-! ## The order of files -/

theorem idxOf_lt_of_filter {α : Type} [BEq α] [LawfulBEq α] (p : α → Bool) {l : List α} {a b : α}
    (keeps : p a = true) (keeps' : p b = true)
    (before : (l.filter p).idxOf a < (l.filter p).idxOf b) : l.idxOf a < l.idxOf b := by
  induction l with
  | nil => exact before
  | cons x l ih =>
    by_cases kept : p x = true
    · rw [List.filter_cons_of_pos kept, List.idxOf_cons, List.idxOf_cons] at before
      rw [List.idxOf_cons, List.idxOf_cons]
      by_cases isFirst : x = a
      · subst isFirst
        by_cases isSecond : x = b
        · subst isSecond
          simp at before
        · simp [beq_false_of_ne isSecond]
      · by_cases isSecond : x = b
        · subst isSecond
          simp at before
        · rw [beq_false_of_ne isFirst, beq_false_of_ne isSecond] at before ⊢
          exact Nat.succ_lt_succ (ih (Nat.lt_of_succ_lt_succ before))
    · have notFirst : x ≠ a := by
        rintro rfl
        exact kept keeps
      have notSecond : x ≠ b := by
        rintro rfl
        exact kept keeps'
      rw [List.filter_cons_of_neg kept] at before
      rw [List.idxOf_cons, List.idxOf_cons, beq_false_of_ne notFirst, beq_false_of_ne notSecond]
      exact Nat.succ_lt_succ (ih before)

/-- Without repetitions the elements of a list come in the order in which they first occur. -/
theorem pairwise_eraseDups {α : Type} [BEq α] [LawfulBEq α] (l : List α) :
    l.eraseDups.Pairwise fun a b => l.idxOf a < l.idxOf b := by
  -- Repetitions are erased through a filter, so the induction is on the length.
  induction length : l.length using Nat.strong_induction_on generalizing l with
  | _ n ih =>
    cases l with
    | nil => exact .nil
    | cons a l =>
      have shorter : (l.filter fun b => !b == a).length < n := by
        rw [← length]
        exact Nat.lt_succ_of_le (List.length_filter_le _ l)
      have other {b : α} (member : b ∈ (l.filter fun b => !b == a).eraseDups) : b ≠ a := by
        simpa using (List.mem_filter.1 (List.mem_eraseDups.1 member)).2
      have later {b : α} (member : b ∈ (l.filter fun b => !b == a).eraseDups) :
          (a :: l).idxOf b = l.idxOf b + 1 := by
        rw [List.idxOf_cons, beq_false_of_ne (other member).symm]
        rfl
      rw [List.eraseDups_cons]
      refine .cons (fun b member => ?_) ?_
      · rw [List.idxOf_cons_self, later member]
        exact Nat.succ_pos _
      · refine (ih _ shorter _ rfl).imp_of_mem fun {b c} member member' before => ?_
        rw [later member, later member']
        refine Nat.succ_lt_succ (idxOf_lt_of_filter _ ?_ ?_ before)
        · simpa using other member
        · simpa using other member'

namespace Installation

theorem mem_editedFiles {edits : List IniEdit} {file : List String} :
    file ∈ editedFiles edits ↔ ∃ e ∈ edits, e.file = file := by
  rw [editedFiles, List.mem_eraseDups, List.mem_map]

/-- The files come in the order in which changes of them have been queued first. -/
theorem editedFiles_ordered (edits : List IniEdit) : (editedFiles edits).Pairwise fun file file' =>
    (edits.map (·.file)).idxOf file < (edits.map (·.file)).idxOf file' :=
  pairwise_eraseDups _

theorem editedFiles_nodup (edits : List IniEdit) : (editedFiles edits).Nodup :=
  (editedFiles_ordered edits).imp fun before => by
    rintro rfl
    exact Nat.lt_irrefl _ before

/-! ## Reading one file -/

section

variable {files files' : FileTree} {p : Path} {edits : List IniEdit}

theorem readSettings_of_file {content : List UInt8}
    (stands : files.find? p = some (.file content)) :
    readSettings files p = Ini.ofBytes content := by
  obtain ⟨leads, stands⟩ := FileTree.find?_eq_some stands
  rw [readSettings, FileTree.look, leads]
  dsimp only
  rw [stands]

theorem plain_empty : Ini.Plain {} := by
  refine ⟨IniFile.unique_empty, nofun, fun {header name value} given => ?_⟩
  obtain ⟨options, found, member⟩ := IniFile.get?_eq_some given
  unfold IniFile.options? at found
  split at found
  · cases found
    cases member
  · cases found

theorem plain_of_readSettings {ini : Ini} (reads : readSettings files p = .ok ini) : ini.Plain := by
  unfold readSettings at reads
  split at reads
  · cases reads
  · exact Ini.plain_of_ofBytes reads
  · cases reads
    exact plain_empty

/-! ## Changing one file -/

/-- What goes wrong before anything is written. -/
theorem updateSettings_eq_error {fault : IniFault}
    (fails : updateSettings files p edits = (files', some fault)) :
    files.AddsDirectories files' := by
  have adds := (files.ensureDirectory_makes p.parent).adds
  unfold updateSettings at fails
  split at fails
  · cases fails
    exact .refl files
  · split at fails
    · rename_i made e eq
      cases fails
      rwa [eq] at adds
    · rename_i made eq
      rw [eq] at adds
      split at fails
      · cases fails
      · cases fails
        exact adds

/-- A change that comes to its end. -/
theorem updateSettings_eq_ok (updates : updateSettings files p edits = (files', none)) :
    ∃ old new made, readSettings files p = .ok old ∧ editSettings old edits = .ok new ∧
      files.AddsDirectories made ∧ made.write p (Text.encodeUtf8 new.text) = .ok files' := by
  have adds := (files.ensureDirectory_makes p.parent).adds
  unfold updateSettings at updates
  split at updates
  · cases updates
  · rename_i new edited
    cases reads : readSettings files p with
    | error fault =>
      rw [reads] at edited
      cases edited
    | ok old =>
      rw [reads] at edited
      split at updates
      · cases updates
      · rename_i made eq
        rw [eq] at adds
        split at updates
        · rename_i written writes
          cases updates
          exact ⟨old, new, made, rfl, edited, adds, writes⟩
        · cases updates

end

/-- What a change of the file at a place leaves alone. -/
structure ChangesOnly (place : List String) (files files' : FileTree) : Prop where
  directories : files.KeepsDirectories files'
  elsewhere : ∀ {other entry}, other ≠ place → files.get? other = some entry →
    files'.get? other = some entry
  noNewFiles : ∀ {other content}, other ≠ place → files'.get? other = some (.file content) →
    files.get? other = some (.file content)
  staysFile : ∀ {content}, files.get? place = some (.file content) →
    ∃ content', files'.get? place = some (.file content')

theorem updateSettings_changesOnly {files files' : FileTree} {p : Path} {edits : List IniEdit}
    {outcome : Option IniFault} (eq : updateSettings files p edits = (files', outcome)) :
    ChangesOnly p.place files files' := by
  cases outcome with
  | some fault =>
    have adds := updateSettings_eq_error eq
    exact ⟨adds.keepsDirectories, fun _ => adds.keeps, fun _ => adds.files,
      fun stands => ⟨_, adds.keeps stands⟩⟩
  | none =>
    obtain ⟨old, new, made, -, -, adds, writes⟩ := updateSettings_eq_ok eq
    have change := FileTree.write_change writes
    refine ⟨adds.keepsDirectories.trans change.keepsDirectories, fun differs stands => ?_,
      fun differs stands => ?_, fun _ => ?_⟩
    · rw [change.elsewhere differs, adds.keeps stands]
    · rw [change.elsewhere differs] at stands
      exact adds.files stands
    · obtain ⟨-, -, rfl⟩ := FileTree.write_eq_ok writes
      exact ⟨_, made.get?_put_self _ change.below⟩

/-! ## Obstacles -/

/-- Why a file cannot be changed. -/
inductive Obstacle (files : FileTree) (target : Path) (file : List String) (edits : List IniEdit) :
    Prop
  /-- Its content is no text, or not that of a settings file. -/
  | unreadable {content : List UInt8} {fault : IniFault}
    (stands : files.find? (target.join file) = some (.file content))
    (unreadable : Ini.ofBytes content = .error fault)
  /-- The header of the default section is not for other sections. -/
  | reserved {e : IniEdit} (queued : e ∈ edits) (reserved : e.header = defaultHeader)
  | directory (stands : files.find? (target.join file) = some .directory)
  /-- It would stand below a file. -/
  | belowFile {above rest : List String} {content : List UInt8} (split : file = above ++ rest)
    (below : rest ≠ []) (stands : files.find? (target.join above) = some (.file content))

section

variable {files : FileTree} {target : Path} {file : List String} {edits : List IniEdit}

/-- A path that leads somewhere leads through directories. -/
theorem stands_above {above rest : List String} {place : List String}
    (leads : files.locate (target.join (above ++ rest)) = .ok place) (below : rest ≠ []) :
    files.get? (target.join above).place = some .directory := by
  unfold FileTree.locate at leads
  split at leads
  · cases leads
  · rw [Path.join, ← List.append_assoc] at leads
    exact (FileTree.locateFrom_append leads below).2

theorem Obstacle.fails (obstacle : Obstacle files target file edits) :
    ∃ files' fault, updateSettings files (target.join file) edits = (files', some fault) := by
  rcases eq : updateSettings files (target.join file) edits with ⟨files', _ | fault⟩
  · obtain ⟨old, new, made, reads, edited, adds, writes⟩ := updateSettings_eq_ok eq
    obtain ⟨leads, noDirectory, -⟩ := FileTree.write_eq_ok writes
    cases obstacle with
    | unreadable stands unreadable =>
      rw [readSettings_of_file stands, unreadable] at reads
      cases reads
    | reserved queued reserved =>
      exact absurd reserved
        (reserved_editSettings (plain_of_readSettings reads).unique edited _ queued)
    | directory stands => exact absurd (adds.keeps (FileTree.find?_eq_some stands).2) noDirectory
    | belowFile split below stands =>
      subst split
      have directory := stands_above leads below
      rw [adds.keeps (FileTree.find?_eq_some stands).2] at directory
      cases directory
  · exact ⟨files', fault, rfl⟩

/-- Two files that are not the same are at different places. -/
theorem place_ne (target : Path) {file file' : List String} (down : ".." ∉ file)
    (down' : ".." ∉ file') (differs : file ≠ file') :
    (target.join file).place ≠ (target.join file').place := by
  rw [Path.place_join _ down, Path.place_join _ down']
  exact fun same => differs (List.append_cancel_left same)

/-- What stands at a path stays there when another file is changed. -/
theorem ChangesOnly.find? {files' : FileTree} {place : List String}
    (only : ChangesOnly place files files') {p : Path} (differs : p.place ≠ place)
    {entry : FileEntry} (stands : files.find? p = some entry) : files'.find? p = some entry := by
  obtain ⟨leads, stands⟩ := FileTree.find?_eq_some stands
  rw [FileTree.find?_of_locate (only.directories.locate leads), only.elsewhere differs stands]

/-- An obstacle stays when another file is changed. -/
theorem Obstacle.stays {files' : FileTree} {file' : List String}
    (obstacle : Obstacle files target file edits) (down : ".." ∉ file) (down' : ".." ∉ file')
    (differs : file ≠ file') (only : ChangesOnly (target.join file').place files files') :
    Obstacle files' target file edits := by
  have apart := place_ne target down down' differs
  cases obstacle with
  | unreadable stands unreadable => exact .unreadable (only.find? apart stands) unreadable
  | reserved queued reserved => exact .reserved queued reserved
  | directory stands => exact .directory (only.find? apart stands)
  | @belowFile above rest content split below stands =>
    obtain ⟨leads, stands'⟩ := FileTree.find?_eq_some stands
    have leads' := only.directories.locate leads
    by_cases same : (target.join above).place = (target.join file').place
    · rw [same] at stands'
      obtain ⟨content', stands''⟩ := only.staysFile stands'
      have stays : files'.find? (target.join above) = some (.file content') := by
        rw [FileTree.find?_of_locate leads', same, stands'']
      exact .belowFile split below stays
    · exact .belowFile split below (only.find? same stands)

end

/-! ## One file after another -/

/-- The changes of one file. -/
def ownEdits (edits : List IniEdit) (file : List String) : List IniEdit :=
  edits.filter fun e => e.file = file

/-- What comes of files that are changed one after another: each is changed or fails for a reason,
and either way the next one has its turn. -/
inductive Updated (target : Path) (edits : List IniEdit) :
    FileTree → List (List String) → FileTree → List (List String × IniFault) → Prop
  | nil {files : FileTree} : Updated target edits files [] files []
  | changed {files files' final : FileTree} {file : List String} {rest : List (List String)}
    {failures : List (List String × IniFault)}
    (updates : updateSettings files (target.join file) (ownEdits edits file) = (files', none))
    (later : Updated target edits files' rest final failures) :
    Updated target edits files (file :: rest) final failures
  | failed {files files' final : FileTree} {file : List String} {rest : List (List String)}
    {failures : List (List String × IniFault)} {fault : IniFault}
    (fails : updateSettings files (target.join file) (ownEdits edits file) = (files', some fault))
    (later : Updated target edits files' rest final failures) :
    Updated target edits files (file :: rest) final ((file, fault) :: failures)

namespace Updated

variable {target : Path} {edits : List IniEdit} {files final : FileTree}
  {order : List (List String)} {failures : List (List String × IniFault)}

/-- A file outside of the order is not touched. -/
theorem find?_of_notMem (updated : Updated target edits files order final failures)
    (downs : ∀ file ∈ order, ".." ∉ file) {file : List String} (down : ".." ∉ file)
    (outside : file ∉ order) {entry : FileEntry}
    (stands : files.find? (target.join file) = some entry) :
    final.find? (target.join file) = some entry := by
  induction updated with
  | nil => exact stands
  | changed updates _ ih | failed updates _ ih =>
    obtain ⟨first, later⟩ := List.forall_mem_cons.1 downs
    obtain ⟨differs, outside⟩ := not_or.1 (mt List.mem_cons.2 outside)
    have apart := place_ne target down first differs
    exact ih later outside ((updateSettings_changesOnly updates).find? apart stands)

end Updated

/-! ## What a run records -/

/-- The warning about a file that could not be changed. -/
def updateWarning (target : Path) (context : Context) (failure : List String × IniFault) :
    Diagnostic :=
  let reason := failure.2.message (target.join failure.1)
  context.warningFor s!"EditIni(): could not update {partsText failure.1}: {reason}" none "W501"

section

variable {edits : List IniEdit} (result : RunResult) {world : World Installation}
  {file : List String} {files' : FileTree}

theorem updateFile_changed (updates : updateSettings world.host.files (world.host.target.join file)
    (ownEdits edits file) = (files', none)) :
    ∃ log, updateFile edits (result, world) file =
      (result, { world with host := { world.host with files := files' }, log }) := by
  rw [ownEdits] at updates
  unfold updateFile
  dsimp only
  rw [updates]
  exact ⟨_, rfl⟩

theorem updateFile_failed {fault : IniFault} (fails : updateSettings world.host.files
    (world.host.target.join file) (ownEdits edits file) = (files', some fault)) :
    let warning := updateWarning world.host.target world.context (file, fault)
    ∃ log, updateFile edits (result, world) file =
      ({ result with warnings := result.warnings ++ [warning] },
        { world with
          context := { world.context with warnings := world.context.warnings.push warning }
          host := { world.host with files := files' }
          log }) := by
  rw [ownEdits] at fails
  unfold updateFile
  dsimp only
  rw [fails]
  exact ⟨_, rfl⟩

end

/-- One file after another has its turn. Each that fails leaves one warning, with the result and
with the run alike. -/
theorem updateFiles_updated (edits : List IniEdit) (order : List (List String)) (result : RunResult)
    (world : World Installation) :
    ∃ failures, Updated world.host.target edits world.host.files order
        (order.foldl (updateFile edits) (result, world)).2.host.files failures ∧
      let warnings := failures.map (updateWarning world.host.target world.context)
      (order.foldl (updateFile edits) (result, world)).1 =
          { result with warnings := result.warnings ++ warnings } ∧
        (order.foldl (updateFile edits) (result, world)).2.context.warnings.toList =
          world.context.warnings.toList ++ warnings := by
  induction order generalizing result world with
  | nil => exact ⟨[], .nil, by simp, by simp⟩
  | cons file order ih =>
    rw [List.foldl_cons]
    rcases eq : updateSettings world.host.files (world.host.target.join file)
      (ownEdits edits file) with ⟨files', _ | fault⟩
    · obtain ⟨log, after⟩ := updateFile_changed result eq
      obtain ⟨failures, updated, both⟩ := ih result
        { world with host := { world.host with files := files' }, log }
      rw [after]
      exact ⟨failures, .changed eq updated, both⟩
    · obtain ⟨log, after⟩ := updateFile_failed result eq
      dsimp only at after
      obtain ⟨failures, updated, warned, warned'⟩ := ih
        (updateFile edits (result, world) file).1 (updateFile edits (result, world) file).2
      rw [after] at updated warned warned' ⊢
      refine ⟨(file, fault) :: failures, .failed eq updated, ?_, ?_⟩
      · rw [warned]
        simp only [List.map_cons, List.append_assoc, List.singleton_append]
        rfl
      · rw [warned']
        simp only [List.map_cons, Array.toList_push, List.append_assoc, List.singleton_append]
        rfl

end Installation

end InstallScript
