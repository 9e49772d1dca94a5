import InstallScript.Defect
import InstallScript.Path

/-!
File trees: the files and directories that an installation works on. A tree is a table of places,
each a list of components from where relative paths start; whatever is not in the table does not
exist. The path from the start down to a place is followed one component at a time
(`FileTree.locate`), as every operation does first.
-/

namespace InstallScript

/-- What stands at a place. -/
inductive FileEntry
  | file (content : List UInt8)
  | directory
  deriving DecidableEq, Repr

/-- Files and directories by place, in the order of their making. -/
structure FileTree where
  entries : List (List String × FileEntry) := []
  deriving DecidableEq, Repr

namespace FileTree

/-- What stands at a place. The start is a directory. -/
def get? (t : FileTree) (place : List String) : Option FileEntry :=
  if place.isEmpty then some .directory else t.entries.lookup place

/-- Whether a place is a directory. -/
def hasDirectory (t : FileTree) (place : List String) : Bool :=
  t.get? place == some .directory

/-- The table with an entry changed or added. -/
def putEntry (place : List String) (entry : FileEntry) :
    List (List String × FileEntry) → List (List String × FileEntry)
  | [] => [(place, entry)]
  | (key, old) :: rest =>
    if key = place then (key, entry) :: rest else (key, old) :: putEntry place entry rest

/-- The tree with something put at a place. The start stays as it is. -/
def put (t : FileTree) (place : List String) (entry : FileEntry) : FileTree :=
  if place.isEmpty then t else ⟨putEntry place entry t.entries⟩

theorem lookup_putEntry_self (place : List String) (entry : FileEntry)
    (entries : List (List String × FileEntry)) :
    (putEntry place entry entries).lookup place = some entry := by
  induction entries with
  | nil => rw [putEntry, List.lookup_cons_self]
  | cons pair rest ih =>
    obtain ⟨key, old⟩ := pair
    rw [putEntry]
    split
    · rename_i h
      rw [h, List.lookup_cons_self]
    · rename_i h
      rw [List.lookup_cons, beq_false_of_ne (Ne.symm h)]
      exact ih

theorem lookup_putEntry_of_ne {place other : List String} (entry : FileEntry)
    (entries : List (List String × FileEntry)) (h : other ≠ place) :
    (putEntry place entry entries).lookup other = entries.lookup other := by
  induction entries with
  | nil => rw [putEntry, List.lookup_cons, beq_false_of_ne h]
  | cons pair rest ih =>
    obtain ⟨key, old⟩ := pair
    rw [putEntry]
    split
    · rename_i hk
      rw [hk, List.lookup_cons, List.lookup_cons, beq_false_of_ne h]
    · rw [List.lookup_cons, List.lookup_cons, ih]

@[simp] theorem get?_put_self (t : FileTree) {place : List String} (entry : FileEntry)
    (h : place ≠ []) : (t.put place entry).get? place = some entry := by
  cases place with
  | nil => exact absurd rfl h
  | cons first rest => exact lookup_putEntry_self (first :: rest) entry t.entries

/-- Putting something at a place changes nothing at any other place. -/
theorem get?_put_of_ne (t : FileTree) {place other : List String} (entry : FileEntry)
    (h : other ≠ place) : (t.put place entry).get? other = t.get? other := by
  cases place with
  | nil => rfl
  | cons first rest =>
    cases other with
    | nil => rfl
    | cons c cs => exact lookup_putEntry_of_ne entry t.entries h

/-- The tree without what stands at a place. -/
def erase (t : FileTree) (place : List String) : FileTree :=
  ⟨t.entries.filter fun pair => pair.1 ≠ place⟩

/-- The names of what stands directly in a directory. -/
def children (t : FileTree) (place : List String) : List String :=
  t.entries.filterMap fun (key, _) =>
    if key.dropLast = place then key.getLast? else none

/-- What stands below a place, by the components from there. -/
def below (t : FileTree) (place : List String) : List (List String × FileEntry) :=
  t.entries.filterMap fun (key, entry) =>
    if place.isPrefixOf key && place ≠ key then some (key.drop place.length, entry) else none

/-- The longest name of a file, in bytes. -/
def nameLimit : Nat := 255

/-- The first length, in bytes, at which a path is too long. -/
def pathLimit : Nat := 4096

/-- The place above one; nothing is known of what is above the start but its name. -/
def above (place : List String) : List String :=
  match place.getLast? with
  | none => [".."]
  | some ".." => place ++ [".."]
  | some "/" => place
  | some _ => place.dropLast

/-- Follows components from a place. All but the last have to lead to directories. -/
def locateFrom (t : FileTree) : List String → List String → Except FileFault (List String)
  | here, [] => .ok here
  | here, component :: rest =>
    match t.get? here with
    | none => .error .notFound
    | some (.file _) => .error .notDirectory
    | some .directory =>
      if component = ".." then t.locateFrom (above here) rest
      else if nameLimit < component.utf8ByteSize then .error .nameTooLong
      else t.locateFrom (here ++ [component]) rest

/-- The place that a path leads to, at which there may be nothing. -/
def locate (t : FileTree) (p : Path) : Except FileFault (List String) :=
  if pathLimit ≤ p.text.utf8ByteSize then .error .nameTooLong
  else t.locateFrom (if p.root = "" then [] else ["/"]) p.components

/-- What a path leads to, if anything. It is refused to look for a name that is too long. -/
def look (t : FileTree) (p : Path) : Except FileError (Option FileEntry) :=
  match t.locate p with
  | .ok place => .ok (t.get? place)
  | .error .nameTooLong => .error ⟨.nameTooLong, p.text⟩
  | .error _ => .ok none

/-- What a path leads to, if anything. -/
def find? (t : FileTree) (p : Path) : Option FileEntry :=
  match t.locate p with
  | .ok place => t.get? place
  | .error _ => none

/-- Whether a path leads to a directory. -/
def isDirectory (t : FileTree) (p : Path) : Bool :=
  t.find? p == some .directory

/-- The content of a file. -/
def read (t : FileTree) (p : Path) : Except FileError (List UInt8) :=
  match t.locate p with
  | .error fault => .error ⟨fault, p.text⟩
  | .ok place =>
    match t.get? place with
    | none => .error ⟨.notFound, p.text⟩
    | some .directory => .error ⟨.isDirectory, p.text⟩
    | some (.file content) => .ok content

/-- The tree after a file has been written. -/
def write (t : FileTree) (p : Path) (content : List UInt8) : Except FileError FileTree :=
  match t.locate p with
  | .error fault => .error ⟨fault, p.text⟩
  | .ok place =>
    match t.get? place with
    | some .directory => .error ⟨.isDirectory, p.text⟩
    | _ => .ok (t.put place (.file content))

/-- The tree after a file has been removed. -/
def remove (t : FileTree) (p : Path) : Except FileError FileTree :=
  match t.locate p with
  | .error fault => .error ⟨fault, p.text⟩
  | .ok place =>
    match t.get? place with
    | none => .error ⟨.notFound, p.text⟩
    | some .directory => .error ⟨.isDirectory, p.text⟩
    | some (.file _) => .ok (t.erase place)

/-- The tree after one directory has been made, at whose place there was nothing. -/
def makeDirectory (t : FileTree) (p : Path) : Except FileError FileTree :=
  match t.locate p with
  | .error fault => .error ⟨fault, p.text⟩
  | .ok place =>
    match t.get? place with
    | none => .ok (t.put place .directory)
    | some _ => .error ⟨.exists, p.text⟩

/-- A directory that is there already need not be made. -/
def makeOrKeep (t : FileTree) (p : Path) : Except FileError FileTree :=
  match t.makeDirectory p with
  | .ok t' => .ok t'
  | .error e => if t.isDirectory p then .ok t else .error e

/-- The tree after a directory and all that is missing above it have been made, and why this ended
too early. The components of the path come last one first. -/
def ensureFrom (t : FileTree) (root : String) : List String → FileTree × Option FileError
  | [] =>
    match t.makeOrKeep ⟨root, []⟩ with
    | .ok t' => (t', none)
    | .error e => (t, some e)
  | last :: up =>
    let p : Path := ⟨root, (last :: up).reverse⟩
    match t.makeOrKeep p with
    | .ok t' => (t', none)
    | .error ⟨.notFound, _⟩ =>
      match t.ensureFrom root up with
      | (t', some e) => (t', some e)
      | (t', none) =>
        match t'.makeOrKeep p with
        | .ok t'' => (t'', none)
        | .error e => (t', some e)
    | .error e => (t, some e)

/-- The tree after a directory and all that is missing above it have been made, and why this ended
too early. -/
def ensureDirectory (t : FileTree) (p : Path) : FileTree × Option FileError :=
  t.ensureFrom p.root p.components.reverse

end FileTree

end InstallScript
