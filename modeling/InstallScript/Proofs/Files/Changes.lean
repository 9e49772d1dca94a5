import InstallScript.Proofs.Files.Handlers

/-!
Work on files as a succession of single changes. Whatever the functions of an installation do to its
files, they make directories and write and remove files one at a time
(`Installation.host_changesFiles`). So directories stay, and whatever stands somewhere stands in a
directory (`FileTree.Changes.closed`).
-/

namespace InstallScript

namespace FileTree

/-- The second tree comes of the first one by single changes. -/
def Changes : FileTree → FileTree → Prop :=
  Relation.ReflTransGen fun t t' => ∃ place, t.Change place t'

theorem Change.changes {t t' : FileTree} {place : List String} (change : t.Change place t') :
    t.Changes t' := .single ⟨place, change⟩

theorem Changes.closed {t t' : FileTree} (changes : t.Changes t') (closed : t.Closed) :
    t'.Closed := by
  induction changes with
  | refl => exact closed
  | tail _ last ih =>
    obtain ⟨place, change⟩ := last
    exact change.closed ih

theorem Changes.keepsDirectories {t t' : FileTree} (changes : t.Changes t') :
    t.KeepsDirectories t' := by
  induction changes with
  | refl => exact .refl t
  | tail _ last ih =>
    obtain ⟨place, change⟩ := last
    exact ih.trans change.keepsDirectories

/-! ## Operations -/

section

variable {t t' : FileTree} {p source target : Path}

theorem MakesDirectories.changes (makes : t.MakesDirectories t') : t.Changes t' := by
  induction makes with
  | refl => exact .refl
  | tail _ last ih =>
    obtain ⟨p, made⟩ := last
    exact ih.trans (makeDirectory_change made).changes

theorem ensureDirectory_changes (t : FileTree) (p : Path) :
    t.Changes (t.ensureDirectory p).1 := (t.ensureDirectory_makes p).changes

theorem writeCopy_changes (t : FileTree) (final : Path) (shown : String)
    (shown' : Path → String) (same : Bool) (content : Except FileError (List UInt8)) :
    t.Changes (t.writeCopy final shown shown' same content).2 := by
  cases same with
  | true => exact .refl
  | false =>
    cases content with
    | error e => exact .refl
    | ok content =>
      rw [writeCopy]
      cases writes : t.write final content with
      | error e => exact .refl
      | ok t' => exact (write_change writes).changes

theorem copyFile_changes {shown : String} {shown' : Path → String}
    (copies : t.copyFile source target shown shown' = .ok t') : t.Changes t' := by
  have same := copyFile_eq_stat source target shown shown' t
  rw [copies] at same
  have left : t' = (t.writeCopy _ _ _ _ _).2 := congrArg Prod.snd same
  rw [left]
  exact t.writeCopy_changes _ _ _ _ _

/-- One part after another, each of which only makes single changes. -/
theorem copyParts_changes {step : CopyState → String → CopyState}
    (each : ∀ (s : CopyState) name, s.tree.Changes (step s name).tree) (names : List String)
    (s : CopyState) : s.tree.Changes (names.foldl step s).tree := by
  induction names generalizing s with
  | nil => exact .refl
  | cons name names ih => exact (each s name).trans (ih (step s name))

theorem tree_after (s : CopyState) (source target : Path) (t : FileTree) (e : Option CopyError) :
    (s.after source target t e).tree = t := by
  rcases e with _ | e
  · rfl
  · cases e <;> rfl

theorem copyLevels_changes (levels : Nat) (t : FileTree) (source target : Path) :
    t.Changes (copyLevels levels t source target).1 := by
  induction levels generalizing t source target with
  | zero => exact .refl
  | succ levels ih =>
    rw [copyLevels]
    split
    · exact .refl
    · rename_i place leads
      have made := t.ensureDirectory_changes target
      dsimp only
      split
      · rename_i t' e eq
        rwa [eq] at made
      · rename_i t' eq
        rw [eq] at made
        refine made.trans (copyParts_changes (fun s name => ?_) _ ⟨t', []⟩)
        split
        · rw [tree_after]
          exact ih s.tree _ _
        · split
          · rename_i copies
            rw [tree_after]
            exact copyFile_changes copies
          · rw [tree_after]
            exact .refl

theorem copy_changes (t : FileTree) (source target : Path) :
    t.Changes (t.copy source target).1 := by
  unfold copy
  split
  · exact t.copyLevels_changes _ _ _
  · dsimp only
    split
    · rename_i copies
      exact copyFile_changes copies
    · exact .refl

end

end FileTree

/-! ## Handlers -/

namespace Installation

/-- A handler that makes single changes of the files. -/
def ChangesFiles (handle : Handler) : Prop :=
  ∀ arguments directory (i : Installation), i.files.Changes (handle arguments directory i).host.files

theorem AsideFromFiles.changesFiles {handle : Handler} (aside : AsideFromFiles handle) :
    ChangesFiles handle := by
  intro arguments directory i
  have same : handle arguments directory (i.withFiles i.files) = _ :=
    aside arguments directory i i.files
  have left : (handle arguments directory i).host.files = i.files :=
    congrArg (fun response : Response Installation => response.host.files) same
  rw [left]
  exact .refl

theorem fileExists_changesFiles : ChangesFiles fileExists := fun _ _ _ => .refl

theorem setDirectory_changesFiles : ChangesFiles setDirectory := by
  intro arguments directory i
  unfold setDirectory
  dsimp only
  split <;> exact .refl

theorem copyInto_changes (files : FileTree) (src dst : Path) :
    files.Changes (copyInto files src dst).1 := by
  have made := files.ensureDirectory_changes dst.parent
  unfold copyInto
  split
  · rename_i files' e eq
    rwa [eq] at made
  · rename_i files' eq
    rw [eq] at made
    exact made.trans (files'.copy_changes src dst)

theorem copy_changesFiles : ChangesFiles copy := by
  intro arguments directory i
  unfold copy
  dsimp only
  split
  · exact .refl
  · rename_i src parts _
    have copies := copyInto_changes i.files src (i.target.join parts)
    split
    · rename_i files e eq
      rwa [eq] at copies
    · rename_i files eq
      rwa [eq] at copies

theorem createDirectory_changesFiles : ChangesFiles createDirectory := by
  intro arguments directory i
  unfold createDirectory
  dsimp only
  split
  · exact .refl
  · rename_i parts _
    have made := i.files.ensureDirectory_changes (i.target.join parts)
    split
    · rename_i files eq
      rwa [eq] at made
    · rename_i files e eq
      rwa [eq] at made

theorem deleteFile_changesFiles : ChangesFiles deleteFile := by
  intro arguments directory i
  unfold deleteFile
  simp only [bind, Except.bind]
  cases i.targetParts (arguments.string "path") with
  | error outcome => exact .refl
  | ok parts =>
    dsimp only
    rcases i.look (i.target.join parts) with outcome | _ | content | _
    · exact .refl
    · exact .refl
    · dsimp only
      cases removes : i.files.remove (i.target.join parts) with
      | error e => exact .refl
      | ok files => exact (FileTree.remove_change removes).changes
    · exact .refl

theorem host_changesFiles {handlers : List (String × Handler)}
    (change : ∀ entry ∈ handlers, ChangesFiles entry.2) (f : FunctionSpec) :
    ChangesFiles (host handlers f) := by
  rcases host_cases f with ⟨entry, member, same⟩ | same
  · rw [same]
    exact change entry member
  · rw [same]
    exact fun _ _ _ => .refl

end Installation

open Installation in
/-- The handlers of the bundled dialects make single changes. -/
theorem Dialect.bundled_changesFiles {d : Dialect} (bundled : d ∈ bundled) :
    ∀ entry ∈ d.handlers, ChangesFiles entry.2 := by
  rcases List.mem_cons.1 bundled with rfl | other
  · simp only [stateOfDecay, List.forall_mem_cons]
    exact ⟨fileExists_changesFiles, copy_changesFiles, createDirectory_changesFiles,
      deleteFile_changesFiles, setDirectory_changesFiles, editIni_aside.changesFiles,
      confirm_aside.changesFiles, choose_aside.changesFiles, reportVersion_aside.changesFiles,
      compareVersion_aside.changesFiles, warn_aside.changesFiles, fail_aside.changesFiles,
      List.forall_mem_nil _⟩
  · obtain rfl := List.mem_singleton.1 other
    simp only [monsterHunterWorld, List.forall_mem_cons]
    exact ⟨fileExists_changesFiles, copy_changesFiles, createDirectory_changesFiles,
      confirm_aside.changesFiles, warn_aside.changesFiles, fail_aside.changesFiles,
      List.forall_mem_nil _⟩

end InstallScript
