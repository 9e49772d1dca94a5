import InstallScript.Proofs.Files.CleanParts
import InstallScript.Proofs.Files.Places

/-!
Work on files between two roots. A computation on file trees is put together from accesses
(`Accesses`) if each of them is at a root followed by clean components: it may look below both roots,
list what is below the first, and make, write and remove below the second. It is confined
(`Confined`) if it also asks for directories that are there from the start, to which there is but one
answer. Confined work leaves everything else as it is (`Confined.keeps`), and where the roots are what
they should be it is put together from accesses (`Confined.within`).
-/

namespace InstallScript

namespace FileTree

/-- A change of what a path leads to. -/
inductive Operation
  | makeDirectory
  | write (content : List UInt8)
  | remove

/-- The tree after an operation. -/
def perform (t : FileTree) (p : Path) : Operation → Except FileError FileTree
  | .makeDirectory => t.makeDirectory p
  | .write content => t.write p content
  | .remove => t.remove p

/-- What went wrong, if anything, and the tree that is left. -/
def outcome {ε : Type} (t : FileTree) : Except ε FileTree → Option ε × FileTree
  | .ok t' => (none, t')
  | .error e => (some e, t)

/-- The names of what stands in the directory that a path leads to. -/
def names (t : FileTree) (p : Path) : List String :=
  match t.locate p with
  | .ok place => t.children place
  | .error _ => []

theorem perform_change {t t' : FileTree} {p : Path} {operation : Operation}
    (performs : t.perform p operation = .ok t') : t.Change p.place t' := by
  cases operation with
  | makeDirectory => exact makeDirectory_change performs
  | write content => exact write_change performs
  | remove => exact remove_change performs

end FileTree

/-- The two roots of an installation. -/
structure Roots where
  /-- The directory of the mod. -/
  source : Path
  /-- The directory of the game. -/
  target : Path
  /-- The directory within that of the game which receives all writes. It is that directory itself or
  stands in it. -/
  inner : List String
  clean : CleanParts inner
  single : inner.dropLast = []

namespace Roots

variable (r : Roots)

/-- A path below the directory of the mod. -/
def InSource (p : Path) : Prop := ∃ parts, CleanParts parts ∧ p = r.source.join parts

/-- A path below the directory that receives all writes. -/
def InTarget (p : Path) : Prop := ∃ parts, CleanParts parts ∧ p = r.target.join (r.inner ++ parts)

/-- A path of a directory that is there from the start: of a root or of one above the directory of
the game. -/
def Given (p : Path) : Prop :=
  p = r.source ∨ p.root = r.target.root ∧ p.components <+: r.target.components

/-- The place below which everything is written. -/
def place : List String := r.target.place ++ r.inner

/-- What is true of the roots from the start: both are directories, the mod is not below the root of
writes nor the other way around, and the names in the mod are clean. -/
structure Sound (t : FileTree) : Prop where
  source : t.find? r.source = some .directory
  target : t.find? r.target = some .directory
  apart : ¬ r.place <+: r.source.place
  apart' : ¬ r.source.place <+: r.place
  names : ∀ parts, t.get? (r.source.place ++ parts) ≠ none → CleanParts parts

/-- What is kept of a tree: all directories, and everything that is not below the root of writes. -/
structure Keeps (t t' : FileTree) : Prop where
  elsewhere : ∀ {place}, ¬ r.place <+: place → t'.get? place = t.get? place
  directories : t.KeepsDirectories t'

end Roots

open FileTree

/-- A computation on file trees is put together from accesses to allowed paths. -/
inductive Accesses (r : Roots) {α : Type} : (FileTree → α × FileTree) → Prop
  | done (a : α) : Accesses r fun t => (a, t)
  | look {p : Path}
    (next : Except FileFault (List String × Option FileEntry) → FileTree → α × FileTree)
    (allowed : r.InSource p ∨ r.InTarget p)
    (goesOn : ∀ found, Accesses r (next found)) : Accesses r fun t => next (t.stat p) t
  | list {p : Path} (next : List String → FileTree → α × FileTree) (allowed : r.InSource p)
    (goesOn : ∀ names, Accesses r (next names)) : Accesses r fun t => next (t.names p) t
  | change {p : Path} (allowed : r.InTarget p) (operation : Operation)
    (next : Option FileError → FileTree → α × FileTree)
    (goesOn : ∀ e, Accesses r (next e)) : Accesses r fun t =>
      let out := t.outcome (t.perform p operation)
      next out.1 out.2

/-- On trees in which the roots are what they should be, a computation makes but such accesses. -/
def Within (r : Roots) {α : Type} (f : FileTree → α × FileTree) : Prop :=
  ∃ g, Accesses r g ∧ ∀ t, r.Sound t → f t = g t

/-- A computation on file trees is put together from accesses to allowed paths, and from questions
whose answer is known. -/
inductive Confined (r : Roots) {α : Type} : (FileTree → α × FileTree) → Prop
  | done (a : α) : Confined r fun t => (a, t)
  | look {p : Path}
    (next : Except FileFault (List String × Option FileEntry) → FileTree → α × FileTree)
    (allowed : r.InSource p ∨ r.InTarget p)
    (goesOn : ∀ found, Confined r (next found)) : Confined r fun t => next (t.stat p) t
  /-- The answer is known: a directory. -/
  | known {p : Path}
    (next : Except FileFault (List String × Option FileEntry) → FileTree → α × FileTree)
    (given : r.Given p)
    (goesOn : ∀ place, Confined r (next (.ok (place, some .directory)))) :
    Confined r fun t => next (t.stat p) t
  | list {p : Path} (next : List String → FileTree → α × FileTree) (allowed : r.InSource p)
    (goesOn : ∀ names, CleanParts names → Confined r (next names)) :
    Confined r fun t => next (t.names p) t
  | change {p : Path} (allowed : r.InTarget p) (operation : Operation)
    (next : Option FileError → FileTree → α × FileTree)
    (goesOn : ∀ e, Confined r (next e)) : Confined r fun t =>
      let out := t.outcome (t.perform p operation)
      next out.1 out.2

/-! ## What is there from the start -/

theorem FileTree.locateFrom_append {t : FileTree} {here first second place : List String}
    (leads : t.locateFrom here (first ++ second) = .ok place) (more : second ≠ []) :
    t.locateFrom here first = .ok (Path.follow here first) ∧
      t.get? (Path.follow here first) = some .directory := by
  induction first generalizing here with
  | nil =>
    obtain ⟨component, rest, rfl⟩ := List.exists_cons_of_ne_nil more
    rw [List.nil_append, locateFrom] at leads
    split at leads
    · cases leads
    · cases leads
    · rename_i stands
      exact ⟨rfl, stands⟩
  | cons component first ih =>
    rw [List.cons_append, locateFrom] at leads
    rw [locateFrom, Path.follow]
    split at leads
    · cases leads
    · cases leads
    · split at leads
      · rename_i up
        rw [if_pos up, if_pos up]
        exact ih leads
      · rename_i down
        split at leads
        · cases leads
        · rename_i short
          rw [if_neg down, if_neg short, if_neg down]
          exact ih leads

theorem Path.intercalate_append (sep : List Char) (first second : List (List Char)) :
    ∃ rest, sep.intercalate (first ++ second) = sep.intercalate first ++ rest := by
  induction first with
  | nil => exact ⟨_, rfl⟩
  | cons head first ih =>
    cases first with
    | nil =>
      cases second with
      | nil => exact ⟨[], by simp⟩
      | cons next second =>
        refine ⟨sep ++ sep.intercalate (next :: second), ?_⟩
        rw [List.cons_append, List.nil_append, List.intercalate_cons_cons,
          List.intercalate_singleton, List.append_assoc]
    | cons next first =>
      obtain ⟨rest, eq⟩ := ih
      refine ⟨rest, ?_⟩
      rw [List.cons_append] at eq ⊢
      rw [List.cons_append, List.intercalate_cons_cons, eq, List.intercalate_cons_cons]
      simp only [List.append_assoc]

/-- The path of a directory above another one is not longer, but for a dot. -/
theorem Path.text_prefix {root : String} {first second : List String}
    (short : (Path.text ⟨root, first ++ second⟩).utf8ByteSize < pathLimit) :
    (Path.text ⟨root, first⟩).utf8ByteSize < pathLimit := by
  unfold Path.text at short ⊢
  dsimp only at short ⊢
  split
  · decide
  · rename_i other
    have other' : ¬ (decide (root = "") && (first ++ second).isEmpty) = true := by
      intro both
      obtain ⟨noRoot, empty⟩ := Bool.and_eq_true_iff.1 both
      have empty : first = [] := (List.append_eq_nil_iff.1 (List.isEmpty_iff.1 empty)).1
      exact other (Bool.and_eq_true_iff.2 ⟨noRoot, List.isEmpty_iff.2 empty⟩)
    rw [if_neg other'] at short
    obtain ⟨rest, eq⟩ := intercalate_append "/".toList (first.map String.toList)
      (second.map String.toList)
    have whole : "/".intercalate (first ++ second) =
        "/".intercalate first ++ String.ofList rest := by
      refine String.toList_inj.1 ?_
      rw [String.toList_intercalate, List.map_append, eq, String.toList_append,
        String.toList_intercalate]
      simp only [String.toList_ofList]
    rw [whole, String.utf8ByteSize_append, String.utf8ByteSize_append] at short
    rw [String.utf8ByteSize_append]
    omega

/-- A path that leads to a directory leads through directories. -/
theorem FileTree.find?_of_join {t : FileTree} {p : Path} {components : List String}
    (stands : t.find? (p.join components) = some .directory) : t.find? p = some .directory := by
  by_cases more : components = []
  · rwa [more, Path.join_nil] at stands
  · obtain ⟨leads, -⟩ := find?_eq_some stands
    unfold locate at leads
    split at leads
    · cases leads
    · rename_i short
      obtain ⟨leads, stands⟩ := locateFrom_append leads more
      have short' : ¬ pathLimit ≤ p.text.utf8ByteSize :=
        Nat.not_le_of_lt (Path.text_prefix (Nat.lt_of_not_le short))
      have leads' : t.locate p = .ok p.place := (if_neg short').trans leads
      rw [find?_of_locate leads']
      exact stands

namespace Roots

variable {r : Roots} {t t' t'' : FileTree}

theorem Sound.stat_given (sound : r.Sound t) {p : Path} (given : r.Given p) :
    t.stat p = .ok (p.place, some .directory) := by
  have stands : t.find? p = some .directory := by
    rcases given with rfl | ⟨root, rest, components⟩
    · exact sound.source
    · have target : r.target = p.join rest := by
        rw [Path.join, components, root]
      exact find?_of_join (target ▸ sound.target)
  obtain ⟨leads, directory⟩ := find?_eq_some stands
  rw [stat_of_locate leads, directory]

/-- The names in a directory of the mod are clean. -/
theorem Sound.cleanParts_names (sound : r.Sound t) {p : Path} (inSource : r.InSource p) :
    CleanParts (t.names p) := by
  obtain ⟨parts, clean, rfl⟩ := inSource
  intro name member
  unfold FileTree.names at member
  split at member
  · rename_i place leads
    obtain rfl := place_of_locate leads
    obtain ⟨entry, stands⟩ := get?_of_mem_children member
    rw [Path.place_join _ clean.down, List.append_assoc] at stands
    have both := sound.names (parts ++ [name]) (by rw [stands]; exact nofun)
    exact both name (List.mem_append_right _ (List.mem_singleton_self name))
  · cases member

theorem place_of_inTarget {p : Path} (inTarget : r.InTarget p) :
    r.place <+: p.place := by
  obtain ⟨parts, clean, rfl⟩ := inTarget
  rw [Path.place_join _ (r.clean.append clean).down, ← List.append_assoc]
  exact List.prefix_append _ _

/-! ## What is kept -/

theorem Keeps.refl (r : Roots) (t : FileTree) : r.Keeps t t := ⟨fun _ => rfl, .refl t⟩

theorem Keeps.trans (first : r.Keeps t t') (second : r.Keeps t' t'') : r.Keeps t t'' :=
  ⟨fun outside => (second.elsewhere outside).trans (first.elsewhere outside),
    first.directories.trans second.directories⟩

theorem Keeps.of_change {place : List String} (inside : r.place <+: place)
    (change : t.Change place t') : r.Keeps t t' := by
  refine ⟨fun {other} outside => change.elsewhere ?_, change.keepsDirectories⟩
  rintro rfl
  exact outside inside

/-- What is below the directory of the mod is not below the root of writes. -/
theorem Sound.outside (sound : r.Sound t) (parts : List String) :
    ¬ r.place <+: r.source.place ++ parts := by
  intro inside
  rcases List.prefix_or_prefix_of_prefix inside (List.prefix_append _ parts) with below | above
  · exact sound.apart below
  · exact sound.apart' above

/-- What is true of the roots stays true. -/
theorem Sound.of_keeps (sound : r.Sound t) (keeps : r.Keeps t t') : r.Sound t' where
  source := keeps.directories.find? sound.source
  target := keeps.directories.find? sound.target
  apart := sound.apart
  apart' := sound.apart'
  names parts stands := by
    rw [keeps.elsewhere (sound.outside parts)] at stands
    exact sound.names parts stands

end Roots

namespace Confined

variable {r : Roots} {α β : Type}

/-- Confined work leaves everything that is not below the root of writes as it is. -/
theorem keeps {f : FileTree → α × FileTree} (confined : Confined r f) {t : FileTree}
    (sound : r.Sound t) : r.Keeps t (f t).2 := by
  induction confined generalizing t with
  | done a => exact .refl r t
  | look next allowed goesOn ih => exact ih _ sound
  | known next given goesOn ih =>
    dsimp only
    rw [sound.stat_given given]
    exact ih _ sound
  | list next allowed goesOn ih => exact ih _ (sound.cleanParts_names allowed) sound
  | @change p allowed operation next goesOn ih =>
    dsimp only
    cases performs : t.perform p operation with
    | error e => exact ih _ sound
    | ok t' =>
      have change := perform_change performs
      have first := Roots.Keeps.of_change (Roots.place_of_inTarget allowed) change
      exact first.trans (ih _ (sound.of_keeps first))

/-- Where the roots are what they should be, confined work makes accesses to allowed paths only. -/
theorem within {f : FileTree → α × FileTree} (confined : Confined r f) : Within r f := by
  classical
  induction confined with
  | done a => exact ⟨_, .done a, fun _ _ => rfl⟩
  | look next allowed goesOn ih =>
    choose g accesses same using ih
    exact ⟨_, .look g allowed accesses, fun t sound => same _ t sound⟩
  | @known p next given goesOn ih =>
    obtain ⟨g, accesses, same⟩ := ih p.place
    refine ⟨g, accesses, fun t sound => ?_⟩
    dsimp only
    rw [sound.stat_given given]
    exact same t sound
  | @list p next allowed goesOn ih =>
    choose g accesses same using ih
    -- Names that are not clean do not occur; the work may go on with them as if there were none.
    refine ⟨_, .list (fun names => if clean : CleanParts names then g names clean else g [] .nil)
      allowed fun names => ?_, fun t sound => ?_⟩
    · split <;> exact accesses _ _
    · have clean := sound.cleanParts_names allowed
      dsimp only
      rw [dif_pos clean]
      exact same _ clean t sound
  | @change p allowed operation next goesOn ih =>
    choose g accesses same using ih
    refine ⟨_, .change allowed operation g accesses, fun t sound => ?_⟩
    dsimp only
    cases performs : t.perform p operation with
    | error e => exact same _ t sound
    | ok t' =>
      have change := perform_change performs
      exact same _ t' (sound.of_keeps (.of_change (Roots.place_of_inTarget allowed) change))

/-! ## Putting work together -/

theorem of_eq {f g : FileTree → α × FileTree} (same : ∀ t, f t = g t) (confined : Confined r g) :
    Confined r f := by
  rwa [funext same]

theorem bind {f : FileTree → α × FileTree} (first : Confined r f)
    {g : α → FileTree → β × FileTree} (second : ∀ a, Confined r (g a)) :
    Confined r fun t => g (f t).1 (f t).2 := by
  induction first with
  | done a => exact second a
  | look next allowed _ ih =>
    exact look (fun found t => g (next found t).1 (next found t).2) allowed ih
  | known next given _ ih =>
    exact known (fun found t => g (next found t).1 (next found t).2) given ih
  | list next allowed _ ih =>
    exact list (fun names t => g (next names t).1 (next names t).2) allowed ih
  | change allowed operation next _ ih =>
    exact change allowed operation (fun e t => g (next e t).1 (next e t).2) ih

end Confined

end InstallScript
