import Mathlib.Data.List.Infix
import Mathlib.Logic.Relation
import InstallScript.FileTree.Copy

/-!
Places in a file tree. Where a path leads to depends on its components only (`Path.place`); whether
it leads there, on the directories on the way. In a closed tree whatever stands somewhere stands in
a directory. Looking, making, writing and removing are told by what stands at the place of a path.
-/

namespace InstallScript

/-! ## The place of a path -/

/-- Where components lead to from a place. -/
def Path.follow : List String → List String → List String
  | here, [] => here
  | here, component :: rest =>
    follow (if component = ".." then FileTree.above here else here ++ [component]) rest

/-- Where a path leads to. -/
def Path.place (p : Path) : List String :=
  follow (if p.root = "" then [] else ["/"]) p.components

namespace Path

theorem follow_append (here first second : List String) :
    follow here (first ++ second) = follow (follow here first) second := by
  induction first generalizing here with
  | nil => rfl
  | cons component first ih => exact ih _

/-- Components besides two dots lead below a place. -/
theorem follow_of_down {here components : List String} (down : ".." ∉ components) :
    follow here components = here ++ components := by
  induction components generalizing here with
  | nil => exact (List.append_nil here).symm
  | cons component rest ih =>
    obtain ⟨other, down⟩ := not_or.1 (mt List.mem_cons.2 down)
    rw [follow, if_neg (Ne.symm other), ih down, List.append_assoc]
    rfl

theorem place_join (p : Path) {components : List String} (down : ".." ∉ components) :
    (p.join components).place = p.place ++ components := by
  rw [place, join, follow_append, follow_of_down down]
  rfl

theorem join_join (p : Path) (first second : List String) :
    (p.join first).join second = p.join (first ++ second) := by
  rw [join, join, join, List.append_assoc]

theorem join_nil (p : Path) : p.join [] = p := by
  rw [join, List.append_nil]

/-- The path of what a path below another one is in. -/
theorem parent_join (p : Path) {components : List String} (some' : components ≠ []) :
    (p.join components).parent = p.join components.dropLast := by
  rw [parent, join, join, List.dropLast_append_of_ne_nil some']

end Path

namespace FileTree

/-! ## Looking -/

/-- The place that a path leads to, and what stands there. -/
def stat (t : FileTree) (p : Path) : Except FileFault (List String × Option FileEntry) :=
  (t.locate p).map fun place => (place, t.get? place)

theorem follow_of_locateFrom {t : FileTree} {here components place : List String}
    (leads : t.locateFrom here components = .ok place) : place = Path.follow here components := by
  induction components generalizing here with
  | nil =>
    cases leads
    rfl
  | cons component rest ih =>
    rw [locateFrom] at leads
    split at leads
    · cases leads
    · cases leads
    · split at leads
      · rename_i up
        rw [Path.follow, if_pos up]
        exact ih leads
      · rename_i down
        split at leads
        · cases leads
        · rw [Path.follow, if_neg down]
          exact ih leads

/-- A path leads to its place or nowhere. -/
theorem place_of_locate {t : FileTree} {p : Path} {place : List String}
    (leads : t.locate p = .ok place) : place = p.place := by
  rw [locate] at leads
  split at leads
  · cases leads
  · exact follow_of_locateFrom leads

theorem stat_eq_ok {t : FileTree} {p : Path} {place : List String} {entry : Option FileEntry}
    (found : t.stat p = .ok (place, entry)) :
    t.locate p = .ok p.place ∧ place = p.place ∧ entry = t.get? p.place := by
  unfold stat at found
  cases leads : t.locate p with
  | error fault =>
    rw [leads] at found
    cases found
  | ok place =>
    rw [leads] at found
    cases found
    rw [place_of_locate leads]
    exact ⟨rfl, rfl, rfl⟩

theorem stat_of_locate {t : FileTree} {p : Path} {place : List String}
    (leads : t.locate p = .ok place) : t.stat p = .ok (p.place, t.get? p.place) := by
  rw [stat, leads, place_of_locate leads]
  rfl

/-- What is found stands at the place of the path. -/
theorem find?_eq_some {t : FileTree} {p : Path} {entry : FileEntry}
    (found : t.find? p = some entry) : t.locate p = .ok p.place ∧ t.get? p.place = some entry := by
  unfold find? at found
  cases leads : t.locate p with
  | error fault =>
    rw [leads] at found
    cases found
  | ok place =>
    rw [leads] at found
    obtain rfl := place_of_locate leads
    exact ⟨rfl, found⟩

theorem find?_of_locate {t : FileTree} {p : Path} (leads : t.locate p = .ok p.place) :
    t.find? p = t.get? p.place := by
  rw [find?, leads]

/-! ## Directories on the way -/

/-- Every directory of the first tree is one of the second. -/
def KeepsDirectories (t t' : FileTree) : Prop :=
  ∀ place, t.get? place = some .directory → t'.get? place = some .directory

theorem KeepsDirectories.refl (t : FileTree) : t.KeepsDirectories t := fun _ => id

theorem KeepsDirectories.trans {t t' t'' : FileTree} (first : t.KeepsDirectories t')
    (second : t'.KeepsDirectories t'') : t.KeepsDirectories t'' :=
  fun place stands => second place (first place stands)

theorem KeepsDirectories.locateFrom {t t' : FileTree} (keeps : t.KeepsDirectories t')
    {here components place : List String} (leads : t.locateFrom here components = .ok place) :
    t'.locateFrom here components = .ok place := by
  induction components generalizing here with
  | nil => exact leads
  | cons component rest ih =>
    rw [FileTree.locateFrom] at leads ⊢
    split at leads
    · cases leads
    · cases leads
    · rename_i stands
      rw [keeps here stands]
      dsimp only
      split at leads
      · rename_i up
        rw [if_pos up]
        exact ih leads
      · rename_i down
        split at leads
        · cases leads
        · rename_i short
          rw [if_neg down, if_neg short]
          exact ih leads

theorem KeepsDirectories.locate {t t' : FileTree} (keeps : t.KeepsDirectories t') {p : Path}
    {place : List String} (leads : t.locate p = .ok place) : t'.locate p = .ok place := by
  unfold FileTree.locate at leads ⊢
  split at leads
  · cases leads
  · rename_i short
    rw [if_neg short]
    exact keeps.locateFrom leads

theorem KeepsDirectories.find? {t t' : FileTree} (keeps : t.KeepsDirectories t') {p : Path}
    (stands : t.find? p = some .directory) : t'.find? p = some .directory := by
  obtain ⟨leads, stands⟩ := find?_eq_some stands
  rw [find?_of_locate (keeps.locate leads), keeps _ stands]

/-! ## Closed trees -/

/-- What stands at a place stands in a directory. -/
def Closed (t : FileTree) : Prop :=
  ∀ place entry, t.get? place = some entry → t.get? place.dropLast = some .directory

/-- In a closed tree a path does not lead to a place in anything but a directory. -/
theorem Closed.locateFrom {t : FileTree} (closed : t.Closed) {here components place : List String}
    (above : t.get? here.dropLast = some .directory)
    (leads : t.locateFrom here components = .ok place) :
    t.get? place.dropLast = some .directory := by
  induction components generalizing here with
  | nil =>
    cases leads
    exact above
  | cons component rest ih =>
    rw [FileTree.locateFrom] at leads
    split at leads
    · cases leads
    · cases leads
    · rename_i stands
      split at leads
      · refine ih ?_ leads
        unfold FileTree.above
        split
        · rfl
        · rw [List.dropLast_concat]
          exact stands
        · exact above
        · exact closed _ _ above
      · split at leads
        · cases leads
        · refine ih ?_ leads
          rw [List.dropLast_concat]
          exact stands

/-- A name that is too long is found so in every tree with more directories. -/
theorem KeepsDirectories.tooLong {t t' : FileTree} (keeps : t.KeepsDirectories t') {p : Path}
    (long : t.locate p = .error .nameTooLong) : t'.locate p = .error .nameTooLong := by
  have from' {here components : List String}
      (long : t.locateFrom here components = .error .nameTooLong) :
      t'.locateFrom here components = .error .nameTooLong := by
    induction components generalizing here with
    | nil => cases long
    | cons component rest ih =>
      rw [FileTree.locateFrom] at long ⊢
      split at long
      · cases long
      · cases long
      · rename_i stands
        rw [keeps here stands]
        dsimp only
        split at long
        · rename_i up
          rw [if_pos up]
          exact ih long
        · rename_i down
          rw [if_neg down]
          split at long
          · rename_i tooLong
            rw [if_pos tooLong]
          · rename_i short
            rw [if_neg short]
            exact ih long
  unfold FileTree.locate at long ⊢
  split at long
  · rename_i tooLong
    rw [if_pos tooLong]
  · rename_i short
    rw [if_neg short]
    exact from' long

theorem Closed.locate {t : FileTree} (closed : t.Closed) {p : Path} {place : List String}
    (leads : t.locate p = .ok place) : t.get? place.dropLast = some .directory := by
  unfold FileTree.locate at leads
  split at leads
  · cases leads
  · refine closed.locateFrom ?_ leads
    split <;> rfl

/-! ## Changing a place -/

theorem get?_erase_self (t : FileTree) {place : List String} (below : place ≠ []) :
    (t.erase place).get? place = none := by
  have other : ¬ place.isEmpty = true := fun empty => below (List.isEmpty_iff.1 empty)
  rw [get?, if_neg other, List.lookup_eq_none_iff]
  intro entry member
  have differs : entry.1 ≠ place := by simpa using (List.mem_filter.1 member).2
  simpa [bne_iff_ne] using Ne.symm differs

/-- Removing what stands at a place changes nothing at any other place. -/
theorem get?_erase_of_ne (t : FileTree) {place other : List String} (differs : other ≠ place) :
    (t.erase place).get? other = t.get? other := by
  unfold get? erase
  split
  · rfl
  · induction t.entries with
    | nil => rfl
    | cons entry rest ih =>
      obtain ⟨key, old⟩ := entry
      rw [List.lookup_cons]
      by_cases same : key = place
      · have differs' : other ≠ key := same ▸ differs
        rw [List.filter_cons_of_neg (by simpa using same), beq_false_of_ne differs', ih]
      · rw [List.filter_cons_of_pos (by simpa using same), List.lookup_cons, ih]

/-- A single change of a tree: a directory is made where nothing stands, a file is written where no
directory stands, or a file is removed. What is made or written stands in a directory. -/
inductive Change (t : FileTree) (place : List String) : FileTree → Prop
  | made (free : t.get? place = none) (above : t.Closed → t.get? place.dropLast = some .directory) :
    Change t place (t.put place .directory)
  | written (content : List UInt8) (noDirectory : t.get? place ≠ some .directory)
    (above : t.Closed → t.get? place.dropLast = some .directory) :
    Change t place (t.put place (.file content))
  | removed {content : List UInt8} (stands : t.get? place = some (.file content)) :
    Change t place (t.erase place)

theorem ne_nil_of_get? {t : FileTree} {place : List String}
    (noDirectory : t.get? place ≠ some .directory) : place ≠ [] := by
  rintro rfl
  exact noDirectory rfl

namespace Change

variable {t t' : FileTree} {place : List String}

theorem below (change : t.Change place t') : place ≠ [] := by
  cases change with
  | made free => exact ne_nil_of_get? (by rw [free]; exact nofun)
  | written content noDirectory => exact ne_nil_of_get? noDirectory
  | removed stands => exact ne_nil_of_get? (by rw [stands]; exact nofun)

/-- Nothing changes at any other place. -/
theorem elsewhere (change : t.Change place t') {other : List String} (differs : other ≠ place) :
    t'.get? other = t.get? other := by
  cases change with
  | made | written => exact t.get?_put_of_ne _ differs
  | removed => exact t.get?_erase_of_ne differs

theorem noDirectory (change : t.Change place t') : t.get? place ≠ some .directory := by
  cases change with
  | made free => rw [free]; exact nofun
  | written content noDirectory => exact noDirectory
  | removed stands => rw [stands]; exact nofun

theorem keepsDirectories (change : t.Change place t') : t.KeepsDirectories t' := by
  intro other stands
  have differs : other ≠ place := by
    rintro rfl
    exact change.noDirectory stands
  rw [change.elsewhere differs, stands]

theorem closed (change : t.Change place t') (closed : t.Closed) : t'.Closed := by
  have keeps := change.keepsDirectories
  have before {other : List String} {entry : FileEntry} (differs : other ≠ place)
      (stands : t'.get? other = some entry) : t'.get? other.dropLast = some .directory :=
    keeps _ (closed other entry (change.elsewhere differs ▸ stands))
  intro other entry stands
  by_cases same : other = place
  · subst same
    cases change with
    | made free above => exact keeps _ (above closed)
    | written content noDirectory above => exact keeps _ (above closed)
    | @removed content stands' =>
      have below : other ≠ [] := ne_nil_of_get? (by rw [stands']; exact nofun)
      rw [t.get?_erase_self below] at stands
      cases stands
  · exact before same stands

end Change

/-! ## Operations -/

theorem makeDirectory_eq_ok {t t' : FileTree} {p : Path} (makes : t.makeDirectory p = .ok t') :
    t.locate p = .ok p.place ∧ t.get? p.place = none ∧ t' = t.put p.place .directory := by
  unfold makeDirectory at makes
  cases leads : t.locate p with
  | error fault =>
    rw [leads] at makes
    cases makes
  | ok place =>
    rw [leads] at makes
    obtain rfl := place_of_locate leads
    dsimp only at makes
    split at makes
    · rename_i free
      cases makes
      exact ⟨rfl, free, rfl⟩
    · cases makes

theorem write_eq_ok {t t' : FileTree} {p : Path} {content : List UInt8}
    (writes : t.write p content = .ok t') : t.locate p = .ok p.place ∧
      t.get? p.place ≠ some .directory ∧ t' = t.put p.place (.file content) := by
  unfold write at writes
  cases leads : t.locate p with
  | error fault =>
    rw [leads] at writes
    cases writes
  | ok place =>
    rw [leads] at writes
    obtain rfl := place_of_locate leads
    dsimp only at writes
    split at writes
    · cases writes
    · rename_i other
      cases writes
      exact ⟨rfl, other, rfl⟩

theorem remove_eq_ok {t t' : FileTree} {p : Path} (removes : t.remove p = .ok t') :
    t.locate p = .ok p.place ∧ (∃ content, t.get? p.place = some (.file content)) ∧
      t' = t.erase p.place := by
  unfold remove at removes
  cases leads : t.locate p with
  | error fault =>
    rw [leads] at removes
    cases removes
  | ok place =>
    rw [leads] at removes
    obtain rfl := place_of_locate leads
    dsimp only at removes
    split at removes
    · cases removes
    · cases removes
    · rename_i content stands
      cases removes
      exact ⟨rfl, ⟨content, stands⟩, rfl⟩

theorem makeDirectory_change {t t' : FileTree} {p : Path} (makes : t.makeDirectory p = .ok t') :
    t.Change p.place t' := by
  obtain ⟨leads, free, rfl⟩ := makeDirectory_eq_ok makes
  exact .made free fun closed => closed.locate leads

theorem write_change {t t' : FileTree} {p : Path} {content : List UInt8}
    (writes : t.write p content = .ok t') : t.Change p.place t' := by
  obtain ⟨leads, noDirectory, rfl⟩ := write_eq_ok writes
  exact .written content noDirectory fun closed => closed.locate leads

theorem remove_change {t t' : FileTree} {p : Path} (removes : t.remove p = .ok t') :
    t.Change p.place t' := by
  obtain ⟨-, ⟨content, stands⟩, rfl⟩ := remove_eq_ok removes
  exact .removed stands

/-! ## Making directories -/

/-- The second tree comes of the first one by making directories. -/
def MakesDirectories : FileTree → FileTree → Prop :=
  Relation.ReflTransGen fun t t' => ∃ p, t.makeDirectory p = .ok t'

theorem makeOrKeep_makes {t t' : FileTree} {p : Path} (makes : t.makeOrKeep p = .ok t') :
    t.MakesDirectories t' := by
  unfold makeOrKeep at makes
  split at makes
  · rename_i made eq
    cases makes
    exact .single ⟨p, eq⟩
  · split at makes
    · cases makes
      exact .refl
    · cases makes

theorem ensureFrom_makes (t : FileTree) (root : String) (components : List String) :
    t.MakesDirectories (t.ensureFrom root components).1 := by
  induction components generalizing t with
  | nil =>
    rw [ensureFrom]
    split
    · rename_i t' makes
      exact makeOrKeep_makes makes
    · exact .refl
  | cons last up ih =>
    have first := ih t
    rw [ensureFrom]
    split
    · rename_i t' makes
      exact makeOrKeep_makes makes
    · split
      · rename_i t' e above
        rwa [above] at first
      · rename_i t' above
        rw [above] at first
        split
        · rename_i t'' makes
          exact first.trans (makeOrKeep_makes makes)
        · exact first
    · exact .refl

/-- Making a directory and what is missing above it makes directories only, whatever comes of it. -/
theorem ensureDirectory_makes (t : FileTree) (p : Path) :
    t.MakesDirectories (t.ensureDirectory p).1 := t.ensureFrom_makes p.root p.components.reverse

/-- The second tree has what the first one has, and further directories. -/
structure AddsDirectories (t t' : FileTree) : Prop where
  keeps : ∀ {place entry}, t.get? place = some entry → t'.get? place = some entry
  files : ∀ {place content}, t'.get? place = some (.file content) →
    t.get? place = some (.file content)

theorem AddsDirectories.refl (t : FileTree) : t.AddsDirectories t := ⟨id, id⟩

theorem AddsDirectories.keepsDirectories {t t' : FileTree} (adds : t.AddsDirectories t') :
    t.KeepsDirectories t' := fun _ stands => adds.keeps stands

theorem addsDirectories_put {t : FileTree} {place : List String} (free : t.get? place = none) :
    t.AddsDirectories (t.put place .directory) := by
  have below : place ≠ [] := ne_nil_of_get? (by rw [free]; exact nofun)
  have elsewhere {other : List String} {entry : FileEntry} (stands : t.get? other = some entry) :
      other ≠ place := by
    rintro rfl
    cases free.symm.trans stands
  refine ⟨fun stands => ?_, fun {other content} stands => ?_⟩
  · rw [t.get?_put_of_ne _ (elsewhere stands), stands]
  · by_cases same : other = place
    · rw [same, t.get?_put_self _ below] at stands
      cases stands
    · rwa [t.get?_put_of_ne _ same] at stands

theorem MakesDirectories.adds {t t' : FileTree} (makes : t.MakesDirectories t') :
    t.AddsDirectories t' := by
  induction makes with
  | refl => exact .refl t
  | tail _ last ih =>
    obtain ⟨p, made⟩ := last
    obtain ⟨-, free, rfl⟩ := makeDirectory_eq_ok made
    have adds := addsDirectories_put free
    exact ⟨fun stands => adds.keeps (ih.keeps stands), fun stands => ih.files (adds.files stands)⟩

/-! ## Names -/

theorem mem_of_lookup_some {entries : List (List String × FileEntry)} {key : List String} :
    key ∈ entries.map (·.1) ↔ (entries.lookup key).isSome = true := by
  induction entries with
  | nil => simp
  | cons entry rest ih =>
    obtain ⟨other, old⟩ := entry
    rw [List.map_cons, List.mem_cons, List.lookup_cons, ih]
    by_cases same : key = other
    · simp [same]
    · rw [beq_false_of_ne same]
      simp [same]

/-- A tree is closed if each of its entries stands in a directory. -/
theorem closed_of_entries {t : FileTree}
    (each : ∀ entry ∈ t.entries, t.get? entry.1.dropLast = some .directory) : t.Closed := by
  intro place entry stands
  unfold get? at stands
  split at stands
  · rename_i start
    rw [List.isEmpty_iff.1 start]
    rfl
  · have given := mem_of_lookup_some.2 (Option.isSome_iff_exists.2 ⟨entry, stands⟩)
    obtain ⟨entry', member, rfl⟩ := List.mem_map.1 given
    exact each entry' member

/-- A place at which a name is listed in a directory. -/
theorem key_of_listed {key place : List String} {name : String}
    (listed : (if key.dropLast = place then key.getLast? else none) = some name) :
    key = place ++ [name] := by
  split at listed
  · rename_i above
    obtain ⟨init, rfl⟩ := List.getLast?_eq_some_iff.1 listed
    rw [List.dropLast_concat] at above
    rw [above]
  · cases listed

/-- What is listed in a directory stands there. -/
theorem get?_of_mem_children {t : FileTree} {place : List String} {name : String}
    (member : name ∈ t.children place) : ∃ entry, t.get? (place ++ [name]) = some entry := by
  unfold children at member
  obtain ⟨⟨key, entry⟩, given, eq⟩ := List.mem_filterMap.1 member
  have stands : (t.entries.lookup key).isSome = true :=
    mem_of_lookup_some.1 (List.mem_map_of_mem (f := (·.1)) given)
  have below : ¬ (place ++ [name]).isEmpty = true := by simp
  rw [get?, if_neg below, ← key_of_listed eq]
  exact Option.isSome_iff_exists.1 stands

end FileTree

end InstallScript
