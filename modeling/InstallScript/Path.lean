import InstallScript.Text.Quoted

/-!
Paths. A script names a place by a path with slashes or backslashes; it is resolved against a
directory by walking through its components, and it never climbs above the root. What results is a
list of components.
-/

namespace InstallScript

/-- A slash-separated path: nothing, one slash or two slashes at its head, and components that are
neither empty nor a single dot. -/
structure Path where
  root : String
  components : List String
  deriving DecidableEq, Repr

/-- The pieces of a text between slashes. -/
def splitSlashes : List Char → List Char → List String
  | read, [] => [String.ofList read.reverse]
  | read, c :: rest =>
    if c = '/' then String.ofList read.reverse :: splitSlashes [] rest
    else splitSlashes (c :: read) rest

namespace Path

/-- The head of a path. Exactly two slashes are a head of their own; more count as one. -/
def rootOf : List Char → String
  | '/' :: '/' :: '/' :: _ => "/"
  | '/' :: '/' :: _ => "//"
  | '/' :: _ => "/"
  | _ => ""

/-- The path that a text names. -/
def ofString (s : String) : Path :=
  ⟨rootOf s.toList, (splitSlashes [] s.toList).filter fun part => part ≠ "" && part ≠ "."⟩

/-- The head of a path, if there is one, and its components. -/
def parts (p : Path) : List String :=
  (if p.root = "" then [] else [p.root]) ++ p.components

/-- The path with the given parts. -/
def ofParts : List String → Path
  | [] => ⟨"", []⟩
  | first :: rest =>
    if first = "/" || first = "//" then ⟨first, rest⟩ else ⟨"", first :: rest⟩

/-- A path as text. -/
def text (p : Path) : String :=
  if p.root = "" && p.components.isEmpty then "."
  else p.root ++ "/".intercalate p.components

/-- The last component, or nothing. -/
def name (p : Path) : String :=
  p.components.getLastD ""

/-- The path of what a path is in; at the head of a path it is the path itself. -/
def parent (p : Path) : Path :=
  ⟨p.root, p.components.dropLast⟩

/-- A path below another. -/
def join (p : Path) (components : List String) : Path :=
  ⟨p.root, p.components ++ components⟩

end Path

/-- A list of parts as text. -/
def partsText (parts : List String) : String :=
  (Path.ofParts parts).text

/-- Why a path names no place. -/
inductive PathFault
  /-- The path holds a null character. -/
  | nullCharacter (path : String)
  /-- The path climbs above the root. -/
  | escapesRoot (path : String)
  /-- The path begins with exactly two slashes. -/
  | doubleSlash (path : String)
  deriving DecidableEq, Repr

/-- The wording of a path fault. -/
def PathFault.message : PathFault → String
  | nullCharacter path => s!"path {Text.quoted path} contains a null character"
  | escapesRoot path => s!"path '{path}' escapes the root directory"
  | doubleSlash path =>
    s!"{Text.quoted path} is not in the subpath of '/' OR one path is relative and the other is " ++
      "absolute."

/-- Walks from a directory through components, two dots leading to the directory above. Nothing
results when there is none. -/
def walkParts : List String → List String → Option (List String)
  | directory, [] => some directory
  | directory, component :: rest =>
    if component = ".." then
      if directory.isEmpty then none else walkParts directory.dropLast rest
    else walkParts (directory ++ [component]) rest

/-- Walking through two lists of components is walking through the second one from where the first
one leads. -/
theorem walkParts_append (directory first second : List String) :
    walkParts directory (first ++ second) =
      (walkParts directory first).bind fun reached => walkParts reached second := by
  induction first generalizing directory with
  | nil => rfl
  | cons component rest ih =>
    rw [List.cons_append, walkParts, walkParts]
    split
    · split
      · rfl
      · exact ih directory.dropLast
    · exact ih (directory ++ [component])

/-- Backslashes separate components like slashes. -/
def withSlashes (path : String) : String :=
  String.ofList (path.toList.map fun c => if c = '\\' then '/' else c)

/-- The parts that a path leads to from a directory; a path with a separator at its head starts at
the root. -/
def resolvePath (path : String) (directory : List String) : Except PathFault (List String) :=
  if path.toList.contains '\x00' then .error (.nullCharacter path)
  else
    let raw := Path.ofString (withSlashes path)
    if raw.root = "//" then .error (.doubleSlash raw.text)
    else
      match walkParts (if raw.root = "" then directory else []) raw.components with
      | some parts => .ok parts
      | none => .error (.escapesRoot path)

end InstallScript
