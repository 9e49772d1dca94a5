import InstallScript.Diagnostic
import InstallScript.Text.Quoted

/-!
JSON documents, for tools that read diagnostics. Objects keep the order of their members; a document
is written over several lines and in ASCII.
-/

namespace InstallScript

/-- A JSON document. -/
inductive Json
  | null
  | bool (value : Bool)
  | int (value : Int)
  | str (value : String)
  | arr (items : List Json)
  | obj (members : List (String × Json))
  deriving Inhabited

namespace Json

/-- A number, not above 0xFFFF, as an escape sequence. -/
def escapedUnit (n : Nat) : List Char := '\\' :: 'u' :: Text.hex 4 n

/-- A character as it is written in a string; beyond 0xFFFF it becomes two units of UTF-16. -/
def escapedChar (c : Char) : List Char :=
  if c = '"' || c = '\\' then ['\\', c]
  else if c = '\n' then ['\\', 'n']
  else if c = '\r' then ['\\', 'r']
  else if c = '\t' then ['\\', 't']
  else if c = '\x08' then ['\\', 'b']
  else if c = '\x0c' then ['\\', 'f']
  else if ' ' ≤ c && c ≤ '~' then [c]
  else if c.toNat < 0x10000 then escapedUnit c.toNat
  else
    let n := c.toNat - 0x10000
    escapedUnit (0xD800 + n / 0x400) ++ escapedUnit (0xDC00 + n % 0x400)

/-- A string as it is written. -/
def quoted (s : String) : String :=
  String.ofList ('"' :: s.toList.flatMap escapedChar ++ ['"'])

/-- What stands between brackets, each part on a line of its own, indented two further than the
closing bracket. -/
def bracketed (depth : Nat) (opening closing : String) (parts : List String) : String :=
  if parts.isEmpty then opening ++ closing
  else
    let indent := "\n" ++ repeated (2 * depth) ' '
    opening ++ indent ++ "  " ++ (("," ++ indent ++ "  ").intercalate parts) ++ indent ++ closing

mutual

/-- A document as it is written at some depth. -/
def write (depth : Nat) : Json → String
  | null => "null"
  | bool b => if b then "true" else "false"
  | int n => toString n
  | str s => quoted s
  | arr items => bracketed depth "[" "]" (writeItems (depth + 1) items)
  | obj members => bracketed depth "\x7b" "\x7d" (writeMembers (depth + 1) members)

/-- The items of a list as they are written. -/
def writeItems (depth : Nat) : List Json → List String
  | [] => []
  | item :: rest => write depth item :: writeItems depth rest

/-- The members of an object as they are written. -/
def writeMembers (depth : Nat) : List (String × Json) → List String
  | [] => []
  | (name, value) :: rest => (quoted name ++ ": " ++ write depth value) :: writeMembers depth rest

end

/-- A document as text, on several lines. -/
def pretty (j : Json) : String := write 0 j

mutual

/-- A document on one line, after what has been written before it. -/
def writeLine (before : String) : Json → String
  | null => before ++ "null"
  | bool b => before ++ if b then "true" else "false"
  | int n => before ++ toString n
  | str s => before ++ quoted s
  | arr items => lineItems (before ++ "[") "" items ++ "]"
  | obj members => lineMembers (before ++ "\x7b") "" members ++ "\x7d"

/-- The items of a list on one line; the separator stands before the first. -/
def lineItems (before separator : String) : List Json → String
  | [] => before
  | item :: rest => lineItems (writeLine (before ++ separator) item) "," rest

/-- The members of an object on one line; the separator stands before the first. -/
def lineMembers (before separator : String) : List (String × Json) → String
  | [] => before
  | (name, value) :: rest =>
    lineMembers (writeLine (before ++ separator ++ quoted name ++ ":") value) "," rest

end

/-- A document as text, on one line. -/
def compact (j : Json) : String := writeLine "" j

/-- The member of a name. The last of several has the word. -/
def get? (j : Json) (name : String) : Option Json :=
  match j with
  | obj members => members.reverse.lookup name
  | _ => none

/-- The string that a document is. -/
def str? : Json → Option String
  | str s => some s
  | _ => none

/-- The number that a document is. -/
def int? : Json → Option Int
  | int n => some n
  | _ => none

/-- The items of a list; other documents have none. -/
def items : Json → List Json
  | arr items => items
  | _ => []

/-- The members of an object; other documents have none. -/
def members : Json → List (String × Json)
  | obj members => members
  | _ => []

end Json

/-- A place as a document. -/
def Location.toJson (l : Location) : Json :=
  .obj [("line", .int l.line), ("column", .int l.column), ("offset", .int l.offset)]

/-- A diagnostic as a document; it has a range if its place is known. -/
def Diagnostic.toJson (d : Diagnostic) : Json :=
  let range := match d.span with
    | some span => [("range", .obj [("start", span.start.toJson), ("end", span.stop.toJson)])]
    | none => []
  .obj ([("code", .str d.code), ("message", .str d.message),
    ("severity", .str d.severity.name), ("hints", .arr (d.hints.map .str))] ++ range)

/-- Diagnostics as a document, with the numbers of errors and of warnings. -/
def diagnosticsJson (diagnostics : List Diagnostic) : Json :=
  let errors := diagnostics.countP fun d => d.severity = .error
  .obj [("diagnostics", .arr (diagnostics.map (·.toJson))), ("error_count", .int errors),
    ("warning_count", .int (diagnostics.length - errors))]

end InstallScript
