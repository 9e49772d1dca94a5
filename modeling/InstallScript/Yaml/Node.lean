import InstallScript.Datum.Order
import InstallScript.Yaml.Scalar

/-!
Nodes of a YAML document and the data that they stand for (`Node.data`). A mapping takes in the entries
that its merge keys name when it is made (`Node.ofEntries`); a merge key that names none stays, and is a
fault.

A document has all its faults at once. The one nearest to the root counts, and of several at the same
distance the first.
-/

namespace InstallScript.Yaml

/-- A node. A list or a mapping is `typed` unless a tag says that it is something else. -/
inductive Node
  | scalar (value : Scalar)
  | list (typed : Bool) (items : List Node)
  | mapping (typed : Bool) (entries : List (Node × Node))

/-- A mapping with one of its entries changed or added; a key that is there keeps its place. -/
def putEntry (key value : Datum) : List (Datum × Datum) → List (Datum × Datum)
  | [] => [(key, value)]
  | (k, v) :: rest =>
    if Datum.sameKey k key then (k, value) :: rest else (k, v) :: putEntry key value rest

/-- A changed or added entry leaves the other keys and their order as they are. -/
theorem keys_putEntry (key value : Datum) (entries : List (Datum × Datum)) :
    (putEntry key value entries).map (·.1) = entries.map (·.1) ∨
      (putEntry key value entries).map (·.1) = entries.map (·.1) ++ [key] := by
  induction entries with
  | nil => exact Or.inr rfl
  | cons entry rest ih =>
    unfold putEntry
    split
    · exact Or.inl rfl
    · rcases ih with kept | added
      · exact Or.inl (by simp [kept])
      · exact Or.inr (by simp [added])

namespace Node

/-- The node of a value that is not there. -/
def empty : Node := .scalar (.datum .none)

/-! ## Merging -/

/-- Whether a node is the mark of merging. -/
def isMergeMark : Node → Bool
  | .scalar .mergeMark => true
  | _ => false

/-- Whether a node is the mark of a default value. -/
def isDefaultMark : Node → Bool
  | .scalar .defaultMark => true
  | _ => false

/-- The entries of a mapping. -/
def entries? : Node → Option (List (Node × Node))
  | .mapping _ entries => some entries
  | _ => none

/-- The entries that the value of a merge key gives: those of a mapping, or of all mappings in a
list. Later entries count, so that the first mapping of a list comes last. -/
def merged? : Node → Option (List (Node × Node))
  | .mapping _ entries => some entries
  | .list _ items => (items.mapM entries?).map fun lists => lists.reverse.flatten
  | .scalar _ => none

/-- The mapping of the given entries. What is merged into it comes first. -/
def ofEntries (typed : Bool) (entries : List (Node × Node)) : Node :=
  let (merges, own) := entries.partition fun entry => entry.1.isMergeMark
  match merges.mapM fun entry => entry.2.merged? with
  | some lists => .mapping typed (lists.flatten ++ own)
  | none => .mapping typed entries

/-! ## Faults -/

/-- A fault, and how far it is from the root. -/
abbrev Found := Nat × Fault

/-- The fault of a scalar that is no key. -/
def scalarFault? : Scalar → Option Fault
  | .datum _ => none
  | .mergeMark | .defaultMark => some .illFormed
  | .fault f => some f

/-- Whether a node is a list or a mapping. -/
def isCollection : Node → Bool
  | .scalar _ => false
  | _ => true

mutual

/-- The faults in a node that is so far from the root, in order. A list or a mapping of an unknown kind
is a fault itself; its parts are one step further on. -/
def faults (distance : Nat) : Node → List Found
  | .scalar value => (scalarFault? value).toList.map (distance, ·)
  | .list typed items =>
    if typed then itemFaults (distance + 1) items else [(distance, .illFormed)]
  | .mapping typed entries =>
    if !typed then [(distance, .illFormed)]
    else if entries.any fun entry => entry.1.isMergeMark then [(distance + 1, .illFormed)]
    else entryFaults (distance + 1) entries

/-- The faults in the items of a list. -/
def itemFaults (distance : Nat) : List Node → List Found
  | [] => []
  | item :: rest => faults distance item ++ itemFaults distance rest

/-- The faults in the entries of a mapping, of which no key may be a list or a mapping. -/
def entryFaults (distance : Nat) : List (Node × Node) → List Found
  | [] => []
  | (key, value) :: rest =>
    (if key.isCollection then [(distance, .illFormed)]
      else if key.isDefaultMark then [] else faults distance key) ++
      faults distance value ++ entryFaults distance rest

end

/-- The nearest of several faults, and of those the first. -/
def nearest? : List Found → Option Found
  | [] => none
  | found :: rest =>
    match nearest? rest with
    | some nearer => if nearer.1 < found.1 then some nearer else some found
    | none => some found

/-- No fault is nearer than the nearest one. -/
theorem nearest_le {list : List Found} {least : Found} (h : nearest? list = some least) :
    ∀ found ∈ list, least.1 ≤ found.1 := by
  induction list generalizing least with
  | nil => cases h
  | cons first rest ih =>
    rw [nearest?] at h
    cases nearer : nearest? rest with
    | none =>
      cases rest with
      | nil => simp_all
      | cons second more =>
        rw [nearest?] at nearer
        split at nearer
        · split at nearer <;> cases nearer
        · cases nearer
    | some other =>
      rw [nearer] at h
      have bound := ih nearer
      intro found member
      rcases List.mem_cons.1 member with rfl | later
      · dsimp only at h
        split at h
        · next less => cases h; omega
        · cases h; exact Nat.le_refl _
      · have := bound found later
        dsimp only at h
        split at h
        · cases h; exact this
        · next notLess => cases h; omega

/-! ## Data -/

mutual

/-- The datum of a node without faults. -/
def datum : Node → Datum
  | .scalar (.datum d) => d
  | .scalar _ => .none
  | .list _ items => .list (itemData items)
  | .mapping _ entries =>
    .mapping ((entryData entries).foldl (fun table entry => putEntry entry.1 entry.2 table) [])

/-- The items of a list without faults. -/
def itemData : List Node → List Datum
  | [] => []
  | item :: rest => item.datum :: itemData rest

/-- The entries of a mapping without faults, with all of several that have one key. -/
def entryData : List (Node × Node) → List (Datum × Datum)
  | [] => []
  | (key, value) :: rest =>
    (if key.isDefaultMark then .text "=" else key.datum, value.datum) :: entryData rest

end

/-- The datum of a document's root. -/
def data (root : Node) : Reading Datum :=
  match nearest? (root.faults 0) with
  | some (_, f) => .error f
  | none => .ok root.datum

end Node

end InstallScript.Yaml
