import InstallScript.Proofs.Files.Below

/-!
What a copy brings about. A copy that goes through puts every file that stands at or below its
source at the same place below its target, or into it, under the name of the file, where a directory
was; whatever else stood there stays (`FileTree.Copied`). A copy that does not go through may have
put some of them. Nothing changes that is not at or below the target
(`FileTree.copyLevels_copied`).

The parts of a directory are copied one after another to places of which none is below another one.
So each part finds what there was at the start, and what has been put stays as it is.
-/

namespace InstallScript

/-- Neither place is at or below the other one. -/
structure Separate (source target : List String) : Prop where
  notAbove : ¬ source <+: target
  notBelow : ¬ target <+: source

namespace Separate

variable {source target : List String}

theorem below (apart : Separate source target) (rest rest' : List String) :
    Separate (source ++ rest) (target ++ rest') where
  notAbove on := by
    rcases List.prefix_or_prefix_of_prefix ((List.prefix_append source rest).trans on)
      (List.prefix_append target rest') with above | below
    · exact apart.notAbove above
    · exact apart.notBelow below
  notBelow on := by
    rcases List.prefix_or_prefix_of_prefix ((List.prefix_append target rest').trans on)
      (List.prefix_append source rest) with below | above
    · exact apart.notBelow below
    · exact apart.notAbove above

/-- What is below the first place is not below the other one. -/
theorem off (apart : Separate source target) (rest : List String) :
    ¬ target <+: source ++ rest := by
  have off := (apart.below rest []).notBelow
  rwa [List.append_nil] at off

/-- Different names in a directory are apart. -/
theorem of_names (place : List String) {name name' : String} (differs : name ≠ name') :
    Separate (place ++ [name]) (place ++ [name']) where
  notAbove on := differs (by simpa using on.eq_of_length (by simp))
  notBelow on := differs (by simpa using (on.eq_of_length (by simp)).symm)

end Separate

namespace FileTree

variable {t t' u u' : FileTree}

/-- Two trees have the same at a place and below it. -/
def SameBelow (place : List String) (t u : FileTree) : Prop :=
  ∀ rest, t.get? (place ++ rest) = u.get? (place ++ rest)

/-- Nothing differs between two trees but at a place and below it. -/
def OnlyBelow (place : List String) (t u : FileTree) : Prop :=
  ∀ other, ¬ place <+: other → u.get? other = t.get? other

theorem OnlyBelow.sameBelow {source target : List String} (only : OnlyBelow target t u)
    (apart : Separate source target) : SameBelow source t u :=
  fun rest => (only _ (apart.off rest)).symm

theorem OnlyBelow.trans {place : List String} (first : OnlyBelow place t t')
    (second : OnlyBelow place t' u) : OnlyBelow place t u :=
  fun other off => (second other off).trans (first other off)

theorem OnlyBelow.up {place rest : List String} (only : OnlyBelow (place ++ rest) t u) :
    OnlyBelow place t u :=
  fun other off => only other fun on => off ((List.prefix_append place rest).trans on)

theorem Change.onlyBelow {place : List String} (change : t.Change place t') :
    OnlyBelow place t t' := by
  intro other off
  apply change.elsewhere
  rintro rfl
  exact off List.prefix_rfl

/-! ## What is delivered -/

section

variable {source target : List String}

/-- Where a copy puts a file, by what there is before it: at its place below the target, or into a
directory that stands there. -/
def imagePlace (t : FileTree) (source target rest : List String) : List String :=
  if t.get? (target ++ rest) = some .directory then
    target ++ rest ++ [(source ++ rest).getLastD ""]
  else target ++ rest

/-- A tree after a copy of all that stands at a place and below it to another place. -/
structure Copied (source target : List String) (t t' : FileTree) : Prop where
  /-- Every file is there. -/
  files : ∀ rest content, t.get? (source ++ rest) = some (.file content) →
    t'.get? (t.imagePlace source target rest) = some (.file content)
  /-- What stood where no file is put is still there. -/
  others : ∀ rest entry, t.get? (target ++ rest) = some entry →
    (∀ rest' content, t.get? (source ++ rest') = some (.file content) →
      t.imagePlace source target rest' ≠ target ++ rest) →
    t'.get? (target ++ rest) = some entry

/-- What a copy is to do: everything, if nothing has gone wrong, and nothing elsewhere. -/
structure Delivers (source target : List String) (t : FileTree)
    (out : FileTree × Option CopyError) : Prop where
  only : OnlyBelow target t out.1
  copied : out.2 = none → Copied source target t out.1

theorem imagePlace_below (t : FileTree) (source target rest : List String) :
    ∃ rest', t.imagePlace source target rest = target ++ rest' := by
  unfold imagePlace
  split
  · exact ⟨_, List.append_assoc ..⟩
  · exact ⟨_, rfl⟩

theorem imagePlace_append (t : FileTree) (source target rest rest' : List String) :
    t.imagePlace (source ++ rest) (target ++ rest) rest' =
      t.imagePlace source target (rest ++ rest') := by
  simp only [imagePlace, List.append_assoc]

theorem imagePlace_congr (same : SameBelow target t u) (rest : List String) :
    t.imagePlace source target rest = u.imagePlace source target rest := by
  rw [imagePlace, imagePlace, same rest]

/-- What is copied depends on what stands below the two places only. -/
theorem Copied.congr (copied : Copied source target t t') (sameSource : SameBelow source t u)
    (sameTarget : SameBelow target t u) (sameAfter : SameBelow target t' u') :
    Copied source target u u' where
  files rest content stands := by
    rw [← sameSource] at stands
    have put := copied.files rest content stands
    rw [← imagePlace_congr sameTarget]
    obtain ⟨rest', image⟩ := t.imagePlace_below source target rest
    rw [image] at put ⊢
    rw [← sameAfter, put]
  others rest entry stands free := by
    rw [← sameTarget] at stands
    rw [← sameAfter]
    refine copied.others rest entry stands fun rest' content stands' => ?_
    rw [imagePlace_congr sameTarget]
    rw [sameSource] at stands'
    exact free rest' content stands'

end

/-! ## Files -/

variable {source target : Path}

/-- What is true before something is copied: the table is one of a tree, names below the source are
names, the places are apart, and the target is in a directory or is one. -/
structure CopyReady (t : FileTree) (source target : Path) : Prop where
  closed : t.Closed
  listed : t.Listed
  names : ∀ rest, t.get? (source.place ++ rest) ≠ none → CleanParts rest
  apart : Separate source.place target.place
  atHand : t.AtHand target

theorem readFrom_eq_ok {content : List UInt8}
    (reads : readFrom source (t.stat source) = .ok content) :
    t.get? source.place = some (.file content) := by
  cases found : t.stat source with
  | error fault =>
    rw [found] at reads
    cases reads
  | ok seen =>
    obtain ⟨place, entry⟩ := seen
    obtain ⟨-, -, rfl⟩ := stat_eq_ok found
    rw [found] at reads
    cases stands : t.get? source.place with
    | none =>
      rw [stands] at reads
      cases reads
    | some entry =>
      rw [stands] at reads
      cases entry with
      | directory => cases reads
      | file content' =>
        cases reads
        rfl

/-- The content of a file is written to where it is to be copied. -/
theorem copyFile_eq_ok {shown : String} {shown' : Path → String}
    (copies : t.copyFile source target shown shown' = .ok t') :
    ∃ content, t.get? source.place = some (.file content) ∧
      t.write (t.copyTarget source target) content = .ok t' := by
  have steps := copyFile_eq_stat source target shown shown' t
  rw [copies, ← isDirectory_eq_stat, ← copyTarget] at steps
  dsimp only at steps
  cases same : sameFile (t.stat source) (t.stat (t.copyTarget source target)) with
  | true =>
    rw [same] at steps
    cases steps
  | false =>
    rw [same] at steps
    cases reads : readFrom source (t.stat source) with
    | error e =>
      rw [reads] at steps
      cases steps
    | ok content =>
      rw [reads, writeCopy] at steps
      cases writes : t.write (t.copyTarget source target) content with
      | error e =>
        rw [writes] at steps
        cases steps
      | ok t'' =>
        rw [writes] at steps
        cases steps
        exact ⟨content, readFrom_eq_ok reads, writes⟩

/-- A single file is not copied for a single reason. -/
theorem copyFile_told {shown : String} {shown' : Path → String} {e : CopyError}
    (fails : t.copyFile source target shown shown' = .error e)
    (failures : List (String × String × String)) : e ≠ .parts failures := by
  have steps := copyFile_eq_stat source target shown shown' t
  rw [fails] at steps
  dsimp only at steps
  rintro rfl
  generalize sameFile _ _ = same at steps
  generalize readFrom _ _ = reads at steps
  cases same with
  | true => cases steps
  | false =>
    cases reads with
    | error e => cases steps
    | ok content =>
      rw [writeCopy] at steps
      cases writes : t.write _ content with
      | error e =>
        rw [writes] at steps
        cases steps
      | ok t' =>
        rw [writes] at steps
        cases steps

/-- A file that is copied goes to the image of its place. -/
theorem place_of_copyTarget (named : source.place.getLastD "" = source.name)
    (clean : CleanPart source.name) {place : List String}
    (leads : t.locate (t.copyTarget source target) = .ok place) :
    place = t.imagePlace source.place target.place [] := by
  obtain rfl := place_of_locate leads
  unfold imagePlace
  rw [List.append_nil, List.append_nil, named]
  unfold copyTarget at leads ⊢
  by_cases isDirectory : t.isDirectory target = true
  · obtain ⟨-, stands⟩ := find?_eq_some (eq_of_beq isDirectory)
    rw [if_pos isDirectory, if_pos stands, target.place_join (CleanParts.singleton clean).down]
  · rw [if_neg isDirectory] at leads ⊢
    rw [if_neg]
    intro stands
    rw [← find?_of_locate leads] at stands
    exact isDirectory (beq_iff_eq.2 stands)

theorem copyFile_copied (closed : t.Closed) (named : source.place.getLastD "" = source.name)
    (clean : CleanPart source.name) {shown : String} {shown' : Path → String}
    (copies : t.copyFile source target shown shown' = .ok t') :
    Delivers source.place target.place t (t', none) := by
  obtain ⟨content, stands, writes⟩ := copyFile_eq_ok copies
  obtain ⟨leads, noDirectory, put⟩ := write_eq_ok writes
  have change := write_change writes
  have image := place_of_copyTarget named clean leads
  rw [image] at noDirectory change put
  -- The file is all that there is at or below the source.
  have only {rest : List String} {content' : List UInt8}
      (stands' : t.get? (source.place ++ rest) = some (.file content')) : rest = [] := by
    by_contra below
    rw [closed.get?_above below stands'] at stands
    cases stands
  obtain ⟨rest, inside⟩ := t.imagePlace_below source.place target.place []
  have onlyBelow := change.onlyBelow
  rw [inside] at onlyBelow
  refine ⟨onlyBelow.up, fun _ => ⟨?_, ?_⟩⟩
  · intro rest' content' stands'
    obtain rfl := only stands'
    rw [List.append_nil, stands] at stands'
    cases stands'
    rw [put, t.get?_put_self _ change.below]
  · intro rest' entry stands' free
    have differs := free [] content (by rwa [List.append_nil])
    rw [change.elsewhere differs.symm, stands']

/-! ## Directories -/

/-- A text that is put together from pieces is at least as long as there are pieces that are not
empty. -/
theorem count_le_intercalate (sep : String) (pieces : List String) :
    pieces.countP (· ≠ "") ≤ (sep.intercalate pieces).utf8ByteSize := by
  induction pieces with
  | nil => exact Nat.zero_le _
  | cons piece pieces ih =>
    have size : (if piece ≠ "" then 1 else 0) ≤ piece.utf8ByteSize := by
      split
      · rename_i nonempty
        exact Nat.pos_of_ne_zero (by simpa using nonempty)
      · exact Nat.zero_le _
    rw [List.countP_cons]
    simp only [decide_eq_true_eq]
    cases pieces with
    | nil => simpa using size
    | cons next pieces =>
      rw [String.intercalate_cons_cons, String.utf8ByteSize_append, String.utf8ByteSize_append]
      omega

/-- A path that leads somewhere does not go so deep that its text is too long. -/
theorem length_lt_of_locate {base : Path} {components place : List String}
    (clean : CleanParts components) (leads : t.locate (base.join components) = .ok place) :
    components.length < pathLimit := by
  have nonempty : components.countP (· ≠ "") = components.length :=
    List.countP_eq_length.2 fun component member => by simpa using (clean component member).nonempty
  have long := count_le_intercalate "/" (base.components ++ components)
  rw [List.countP_append, nonempty] at long
  unfold locate at leads
  split at leads
  · cases leads
  · rename_i short
    unfold Path.text at short
    split at short
    · rename_i empty
      have none' : components = [] := by
        simp only [Path.join, Bool.and_eq_true, List.isEmpty_iff, List.append_eq_nil_iff] at empty
        exact empty.2.2
      rw [none']
      decide
    · rw [Path.join, String.utf8ByteSize_append] at short
      dsimp only at short
      omega

theorem failures_after {s : CopyState} {e : Option CopyError} (told : e ≠ some (.parts []))
    (none' : (s.after source target t e).failures = []) : e = none ∧ s.failures = [] := by
  rcases e with _ | e
  · exact ⟨rfl, none'⟩
  · cases e with
    | parts failures =>
      obtain ⟨-, empty⟩ := List.append_eq_nil_iff.1 none'
      rw [empty] at told
      exact absurd rfl told
    | file | same => simp [CopyState.after] at none'

/-- A directory that is not copied tells why. -/
theorem copyLevels_told (levels : Nat) :
    (copyLevels levels t source target).2 ≠ some (.parts []) := by
  cases levels with
  | zero => simp [copyLevels]
  | succ levels =>
    rw [copyLevels]
    split
    · simp
    · dsimp only
      split
      · simp
      · dsimp only
        split
        · simp
        · rename_i failed
          intro same
          injection same with same
          injection same with same
          rw [same] at failed
          exact failed rfl

/-- What has come of some parts of a directory, by what there was before. -/
structure PartsCopied (source target : Path) (t : FileTree) (s : CopyState) (done : List String) :
    Prop where
  changes : t.Changes s.tree
  elsewhere : ∀ other, (∀ name ∈ done, ¬ target.place ++ [name] <+: other) →
    s.tree.get? other = t.get? other
  copied : s.failures = [] → ∀ name ∈ done,
    Copied (source.place ++ [name]) (target.place ++ [name]) t s.tree

namespace PartsCopied

variable {s : CopyState} {done : List String} {name : String}

theorem sameSource (parts : PartsCopied source target t s done)
    (apart : Separate source.place target.place) : SameBelow source.place s.tree t :=
  fun rest => parts.elsewhere _ fun name _ => (apart.below [] [name]).off rest ∘ by simp

/-- What is below a part that is still to be copied is as it was before. -/
theorem sameTarget (parts : PartsCopied source target t s done) (new : name ∉ done) :
    SameBelow (target.place ++ [name]) s.tree t := by
  intro rest
  refine parts.elsewhere _ fun name' member => ?_
  have differs : name ≠ name' := by
    rintro rfl
    exact new member
  exact (Separate.of_names target.place differs).off rest

/-- A further part. -/
theorem after (parts : PartsCopied source target t s done)
    (apart : Separate source.place target.place) (new : name ∉ done) {u : FileTree}
    {e : Option CopyError} (changes : s.tree.Changes u)
    (only : OnlyBelow (target.place ++ [name]) s.tree u)
    (copied : e = none → Copied (source.place ++ [name]) (target.place ++ [name]) s.tree u)
    (told : e ≠ some (.parts [])) :
    PartsCopied source target t (s.after (source.join [name]) (target.join [name]) u e)
      (done ++ [name]) where
  changes := by
    rw [tree_after]
    exact parts.changes.trans changes
  elsewhere other off := by
    obtain ⟨before, last⟩ := List.forall_mem_append.1 off
    rw [tree_after, only other (last name (List.mem_singleton_self name)),
      parts.elsewhere other before]
  copied none' := by
    obtain ⟨rfl, none'⟩ := failures_after told none'
    rw [tree_after]
    intro name' member
    rcases List.mem_append.1 member with before | last
    · have differs : name' ≠ name := by
        rintro rfl
        exact new before
      exact (parts.copied none' name' before).congr (fun _ => rfl) (fun _ => rfl)
        (only.sameBelow (Separate.of_names target.place differs))
    · obtain rfl := List.mem_singleton.1 last
      have same : SameBelow (source.place ++ [name']) s.tree t := by
        intro rest
        rw [List.append_assoc]
        exact parts.sameSource apart _
      exact (copied rfl).congr same (parts.sameTarget new) fun _ => rfl

end PartsCopied

/-- A directory and then its parts. -/
theorem copyLevels_of_find? (stands : t.find? source = some .directory) (levels : Nat) :
    copyLevels (levels + 1) t source target =
      match t.ensureDirectory target with
      | (t', some e) => (t', some (.file e))
      | (t', none) =>
        let s := (t.children source.place).foldl (copyPart levels source target) ⟨t', []⟩
        (s.tree, if s.failures.isEmpty then none else some (.parts s.failures)) := by
  rw [copyLevels, (find?_eq_some stands).1]
  rfl

/-- What is true before a part is copied: what is true before the whole directory is, and is true of
the part. -/
theorem CopyReady.part (ready : CopyReady t source target) {s : CopyState} {done : List String}
    (parts : PartsCopied source target t s done) (stands : t.find? target = some .directory)
    {name : String} (clean : CleanPart name) :
    CopyReady s.tree (source.join [name]) (target.join [name]) := by
  have down := (CleanParts.singleton clean).down
  constructor
  · exact parts.changes.closed ready.closed
  · exact parts.changes.listed ready.listed
  · intro rest there
    rw [source.place_join down, List.append_assoc, parts.sameSource ready.apart] at there
    exact (CleanParts.append_iff.1 (ready.names _ there)).2
  · rw [source.place_join down, target.place_join down]
    exact ready.apart.below [name] [name]
  · exact .inr ⟨target, name, rfl, clean.noDots, parts.changes.keepsDirectories.find? stands⟩

/-- What stands below a directory stands at or below one of its parts. -/
theorem Closed.mem_children (closed : t.Closed) {place rest : List String} {name : String}
    {entry : FileEntry} (stands : t.get? (place ++ name :: rest) = some entry) :
    name ∈ t.children place := by
  by_cases last : rest = []
  · subst last
    exact FileTree.mem_children stands
  · rw [List.append_cons] at stands
    exact FileTree.mem_children (closed.get?_above last stands)

/-- The parts that have been copied make up the directory. -/
theorem Copied.of_parts {s : CopyState} (apart : Separate source.place target.place)
    (closed : t.Closed) (directory : t.get? source.place = some .directory)
    (adds : t.AddsDirectories t')
    (made : ∀ other, other ≠ target.place → t'.get? other = t.get? other)
    (parts : PartsCopied source target t' s (t.children source.place))
    (whole : s.failures = []) : Copied source.place target.place t s.tree := by
  have below (name : String) (rest : List String) :
      target.place ++ name :: rest ≠ target.place := by
    simp
  have image (name : String) (rest : List String) :
      t'.imagePlace (source.place ++ [name]) (target.place ++ [name]) rest =
        t.imagePlace source.place target.place (name :: rest) := by
    rw [imagePlace_append, imagePlace, imagePlace, List.singleton_append, made _ (below name rest)]
  have sameSource (rest : List String) :
      t'.get? (source.place ++ rest) = t.get? (source.place ++ rest) := by
    apply made
    intro same
    exact apart.off rest (same ▸ List.prefix_rfl)
  constructor
  · intro rest content stands
    cases rest with
    | nil =>
      rw [List.append_nil, directory] at stands
      cases stands
    | cons name rest =>
      have put := (parts.copied whole name (closed.mem_children stands)).files rest content
        (by rw [← List.append_cons, sameSource, stands])
      rwa [image] at put
  · intro rest entry stands free
    have stands' := adds.keeps stands
    cases rest with
    | nil =>
      rw [parts.elsewhere]
      · exact stands'
      · intro name _ on
        have longer := on.length_le
        simp only [List.append_nil, List.length_append, List.length_singleton] at longer
        omega
    | cons name rest =>
      rw [List.append_cons] at stands' ⊢
      by_cases listed : name ∈ t.children source.place
      · refine (parts.copied whole name listed).others rest entry stands'
          fun rest' content there => ?_
        rw [image, ← List.append_cons]
        refine free (name :: rest') content ?_
        rwa [← sameSource, List.append_cons]
      · rw [parts.sameTarget listed, stands']

/-- The parts of a directory that is to be copied are named. -/
theorem CopyReady.children (ready : CopyReady t source target) :
    CleanParts (t.children source.place) := by
  intro name member
  obtain ⟨entry, stands⟩ := get?_of_mem_children member
  exact ready.names [name] (by rw [stands]; exact nofun) name (List.mem_singleton_self name)

/-- Making the target of a copy changes nothing else. -/
theorem CopyReady.onlyBelow (ready : CopyReady t source target) :
    OnlyBelow target.place t (t.ensureDirectory target).1 := by
  intro other off
  apply ready.atHand.ensureDirectory_elsewhere ready.closed
  rintro rfl
  exact off List.prefix_rfl

/-- What is true before a directory is copied is true when its target has been made. -/
theorem CopyReady.ensured (ready : CopyReady t source target)
    (made : t.ensureDirectory target = (t', none)) : CopyReady t' source target := by
  have changes := t.ensureDirectory_changes target
  have onlyMade := ready.onlyBelow
  rw [made] at changes onlyMade
  refine ⟨changes.closed ready.closed, changes.listed ready.listed, ?_, ready.apart,
    .inl (find?_of_ensureDirectory made)⟩
  intro rest stands
  rw [← onlyMade.sameBelow ready.apart] at stands
  exact ready.names rest stands

/-- A part is copied. -/
theorem PartsCopied.copyPart (ready : CopyReady t source target)
    (stands : t.find? target = some .directory) {s : CopyState} {done : List String}
    (parts : PartsCopied source target t s done) {name : String} (new : name ∉ done)
    (clean : CleanPart name) {levels : Nat}
    (deeper : ∀ u : FileTree, CopyReady u (source.join [name]) (target.join [name]) →
      u.find? (source.join [name]) = some .directory →
      Delivers (source.join [name]).place (target.join [name]).place u
        (copyLevels levels u (source.join [name]) (target.join [name]))) :
    PartsCopied source target t (copyPart levels source target s name) (done ++ [name]) := by
  have down := (CleanParts.singleton clean).down
  have ready' := ready.part parts stands clean
  have sourcePlace := source.place_join down
  have targetPlace := target.place_join down
  have last : (source.join [name]).name = name := by simp [Path.name, Path.join]
  unfold FileTree.copyPart
  dsimp only
  split
  · rename_i isDirectory
    obtain ⟨only, copied⟩ := deeper s.tree ready' (eq_of_beq isDirectory)
    rw [targetPlace] at only copied
    rw [sourcePlace] at copied
    exact parts.after ready.apart new (copyLevels_changes _ _ _ _) only copied (copyLevels_told _)
  · split
    · rename_i u copies
      have named : (source.join [name]).place.getLastD "" = (source.join [name]).name := by
        rw [sourcePlace, last]
        simp
      obtain ⟨only, copied⟩ := copyFile_copied ready'.closed named (last.symm ▸ clean) copies
      rw [targetPlace] at only copied
      rw [sourcePlace] at copied
      exact parts.after ready.apart new (copyFile_changes copies) only copied (by simp)
    · rename_i e copies
      refine parts.after ready.apart new .refl (fun _ _ => rfl) (by simp) ?_
      rintro same
      exact copyFile_told copies [] (Option.some.inj same)

/-- Parts are copied one after another. -/
theorem PartsCopied.copyParts (ready : CopyReady t source target)
    (stands : t.find? target = some .directory) {levels : Nat} {names : List String}
    (clean : CleanParts names)
    (deeper : ∀ name ∈ names, ∀ u : FileTree,
      CopyReady u (source.join [name]) (target.join [name]) →
      u.find? (source.join [name]) = some .directory →
      Delivers (source.join [name]).place (target.join [name]).place u
        (copyLevels levels u (source.join [name]) (target.join [name])))
    {s : CopyState} {done : List String} (parts : PartsCopied source target t s done)
    (distinct : (done ++ names).Nodup) :
    PartsCopied source target t (names.foldl (FileTree.copyPart levels source target) s)
      (done ++ names) := by
  induction names generalizing s done with
  | nil => rwa [List.append_nil]
  | cons name names ih =>
    obtain ⟨cleanName, cleanNames⟩ := List.forall_mem_cons.1 clean
    obtain ⟨deeperName, deeperNames⟩ := List.forall_mem_cons.1 deeper
    have new : name ∉ done := fun member =>
      (List.nodup_append.1 distinct).2.2 name member name List.mem_cons_self rfl
    rw [List.append_cons] at distinct ⊢
    exact ih cleanNames deeperNames (parts.copyPart ready stands new cleanName deeperName) distinct

/-- A directory is copied with everything below it. -/
theorem copyLevels_copied (levels : Nat) {base : Path} {components : List String}
    (ready : CopyReady t (base.join components) target) (clean : CleanParts components)
    (deep : pathLimit ≤ components.length + levels)
    (stands : t.find? (base.join components) = some .directory) :
    Delivers (base.join components).place target.place t
      (copyLevels levels t (base.join components) target) := by
  induction levels generalizing t target components with
  | zero =>
    have short := length_lt_of_locate clean (find?_eq_some stands).1
    omega
  | succ levels ih =>
    -- The parts of the directory are one level deeper.
    have deeper (target : Path) (name : String) (cleanName : CleanPart name) (u : FileTree)
        (ready : CopyReady u ((base.join components).join [name]) target)
        (stands : u.find? ((base.join components).join [name]) = some .directory) :
        Delivers ((base.join components).join [name]).place target.place u
          (copyLevels levels u ((base.join components).join [name]) target) := by
      have deep' : pathLimit ≤ (components ++ [name]).length + levels := by
        rw [List.length_append, List.length_singleton]
        omega
      rw [Path.join_join] at ready stands ⊢
      exact ih ready (clean.append (.singleton cleanName)) deep' stands
    generalize path : base.join components = source at ready stands deeper ⊢
    obtain ⟨leads, directory⟩ := find?_eq_some stands
    have adds := t.ensureDirectory_adds target
    have onlyMade := ready.onlyBelow
    have made (other : List String) (differs : other ≠ target.place) :
        (t.ensureDirectory target).1.get? other = t.get? other :=
      ready.atHand.ensureDirectory_elsewhere ready.closed differs
    rw [copyLevels_of_find? stands]
    cases out : t.ensureDirectory target with
    | mk t' e =>
    rw [out] at adds made onlyMade
    cases e with
    | some e => exact ⟨onlyMade, nofun⟩
    | none =>
      have start : PartsCopied source target t' ⟨t', []⟩ [] :=
        ⟨.refl, fun _ _ => rfl, fun _ => List.forall_mem_nil _⟩
      have parts := start.copyParts (ready.ensured out) (find?_of_ensureDirectory out)
        ready.children (fun name member u => deeper _ name (ready.children name member) u)
        (by simpa using ready.listed.children source.place)
      rw [List.nil_append] at parts
      dsimp only
      generalize (t.children source.place).foldl (copyPart levels source target) ⟨t', []⟩ = s
        at parts ⊢
      refine ⟨?_, ?_⟩
      · refine onlyMade.trans fun other off => parts.elsewhere other fun name _ on => ?_
        exact off ((List.prefix_append _ _).trans on)
      · intro whole
        apply Copied.of_parts ready.apart ready.closed directory adds made parts
        split at whole
        · rename_i empty
          exact List.isEmpty_iff.1 empty
        · cases whole

end FileTree

end InstallScript
