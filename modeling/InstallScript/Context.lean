import InstallScript.Diagnostic
import InstallScript.Path
import InstallScript.Scopes

/-!
What a run keeps track of besides its host: variables, the current directory within the mod,
warnings, and the number of calls of host functions.
-/

namespace InstallScript

/-- The changing part of a run. -/
structure Context where
  scopes : Scopes := {}
  /-- The current directory, relative to the root of the mod. -/
  directory : List String := []
  warnings : Array Diagnostic := #[]
  invocations : Nat := 0
  /-- The call in progress. -/
  callSpan : Option Span := none
  sourceLines : List String := []

namespace Context

/-- The warning about a stretch, or about the call in progress. -/
def warningFor (c : Context) (message : String) (span : Option Span) (code : String) :
    Diagnostic :=
  let place := match span with
    | some s => some s
    | none => c.callSpan
  { code, message, severity := .warning, span := place,
    sourceLine := sourceLine? c.sourceLines place }

/-- Records a warning. -/
def addWarning (c : Context) (message : String) (span : Option Span := none)
    (code : String := "W500") : Context :=
  { c with warnings := c.warnings.push (c.warningFor message span code) }

/-- The parts that a path leads to from the current directory. -/
def resolve (c : Context) (path : String) : Except PathFault (List String) :=
  resolvePath path c.directory

/-- Moves the current directory. A path that names no place leaves it as it is. -/
def changeDirectory (c : Context) (path : String) : Except PathFault Context :=
  (c.resolve path).map fun directory => { c with directory }

end Context

end InstallScript
