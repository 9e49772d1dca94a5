import InstallScript.Source
import InstallScript.Text.Lines

/-!
Diagnostics: what the library has to say about a script, with the place it is about, and how it is
shown to a reader.
-/

namespace InstallScript

/-- How bad a diagnostic is. -/
inductive Severity
  | error
  | warning
  deriving DecidableEq, Repr

/-- The name of a severity. -/
def Severity.name : Severity → String
  | error => "error"
  | warning => "warning"

/-- The severity with a given name. -/
def Severity.ofName? (name : String) : Option Severity :=
  [Severity.error, .warning].find? (·.name = name)

/-- A message about a script. -/
structure Diagnostic where
  code : String
  message : String
  severity : Severity := .error
  span : Option Span := none
  sourceLine : Option String := none
  hints : List String := []
  deriving DecidableEq, Repr

/-- `n` times a character. -/
def repeated (n : Nat) (c : Char) : String :=
  String.ofList (List.replicate n c)

/-- A number in a field of the given width. -/
def padLeft (width n : Nat) : String :=
  let digits := toString n
  repeated (width - digits.length) ' ' ++ digits

namespace Diagnostic

/-- The first line of the display. -/
def headline (d : Diagnostic) : String :=
  let place := match d.span with
    | some span => span.startText
    | none => "<script>"
  s!"{place}: {d.severity.name}[{d.code}]: {d.message}"

/-- The source line with the stretch marked below it. A stretch over several lines is marked to the
end of the first, and an empty one by a single mark. -/
def excerpt (span : Span) (line : String) : List String :=
  let stop := if span.start.line = span.stop.line then span.stop.column else line.length + 1
  let marks := max 1 (stop - span.start.column)
  ["  |", s!"{padLeft 3 span.start.line} | {line}",
    "    | " ++ repeated (span.start.column - 1) ' ' ++ repeated marks '^']

/-- A diagnostic as it is displayed. -/
def format (d : Diagnostic) (showSource : Bool := true) : String :=
  let source := match showSource, d.sourceLine, d.span with
    | true, some line, some span => excerpt span line
    | _, _, _ => []
  "\n".intercalate
    ([d.headline] ++ source ++ d.hints.map fun hint => "    = hint: " ++ hint)

end Diagnostic

/-- The line that a stretch starts on. -/
def sourceLine? (lines : List String) (span : Option Span) : Option String :=
  span.bind fun s => Text.line? lines s.start.line

end InstallScript
