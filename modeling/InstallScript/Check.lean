import InstallScript.Catalog
import InstallScript.Collector
import InstallScript.Tree.Parse
import InstallScript.Tree.Walk

/-!
Mistakes that show before a script is run: calls that do not fit the catalog of the dialect,
literal arguments of the wrong kind, and variables that are read and never assigned.
-/

namespace InstallScript

/-- What scripts are checked against. -/
structure Checker where
  catalog : Catalog
  caseSensitive : Bool := false
  /-- The lines that diagnostics show. -/
  lines : List String := []

/-- The form in which names are compared. -/
def nameKey (caseSensitive : Bool) (name : String) : String :=
  if caseSensitive then name else Text.fold name

namespace Checker

/-- An error at a stretch of the script. -/
def errorAt (checker : Checker) (fault : Fault) (span : Span) : ScriptError :=
  ScriptError.withLine ⟨fault, some span, none⟩ checker.lines

/-- The kind of value that a literal has. -/
def literalKind : Literal → ValueKind
  | .number _ => .number
  | .string _ => .string
  | .bool _ => .bool

/-- The error that an argument is, if it is a literal of a kind that the parameter does not
accept. -/
def argumentError? (checker : Checker) (f : FunctionSpec) (p : ParamSpec) (e : Expr) :
    Option ScriptError :=
  match e with
  | .literal span literal =>
    let kind := literalKind literal
    if p.kind.accepts kind then none
    else
      some (checker.errorAt (.argumentKind f.name p.name p.kind.name (kind.name ++ " literal")) span)
  | _ => none

/-- What is wrong with a call. -/
def callErrors (checker : Checker) (c : Call) : List ScriptError :=
  match checker.catalog.get? c.name with
  | none => [checker.errorAt (.unknownFunction c.name) c.span]
  | some f =>
    match f.matchArguments c.arguments.length (c.keywords.map (·.name)) with
    | .error fault => [checker.errorAt fault c.span]
    | .ok matched =>
      let values := c.arguments ++ c.keywords.map (·.value)
      ((matched.positional ++ matched.named).zip values).filterMap fun (p, e) =>
        checker.argumentError? f p e

/-- The name that a node assigns to. -/
def assignedName? : Node → Option String
  | .stmt (.assign _ _ name _) => some name
  | .stmt (.forLoop _ counter _ _ _ _) => some counter
  | _ => none

/-- The names that a script assigns to, in the form in which names are compared. -/
def assignedKeys (checker : Checker) (nodes : List Node) : List String :=
  (nodes.filterMap assignedName?).map (nameKey checker.caseSensitive)

/-- What is wrong with a node, given the names that are assigned to. -/
def nodeErrors (checker : Checker) (assigned : List String) : Node → List ScriptError
  | .expr (.call c) => checker.callErrors c
  | .expr (.var span name) =>
    if assigned.contains (nameKey checker.caseSensitive name) then []
    else [checker.errorAt (.neverAssigned name) span]
  | _ => []

/-- Takes in the errors of nodes one after another. Once the limit is reached, no further node is
looked at. -/
def collect (checker : Checker) (assigned : List String) : List Node → Collector → Collector
  | [], found => found
  | node :: rest, found =>
    if found.shouldStop then found
    else
      let errors := checker.nodeErrors assigned node
      collect checker assigned rest (errors.foldl (fun c e => c.add e.diagnostic) found)

/-- What is wrong with a script, up to a number of errors. -/
def check (checker : Checker) (script : Block) (maxErrors : Int := 20) : Collector :=
  let nodes := script.walk
  checker.collect (checker.assignedKeys nodes) nodes { maxErrors }

end Checker

/-- Why a script cannot be run. -/
inductive CompileError
  | parse (error : ParseError)
  | check (error : Diagnostic)
  deriving DecidableEq, Repr

/-- Reads a script and checks it; the first error counts. -/
def compile (catalog : Catalog) (g : Grammar) (caseSensitive : Bool) (source : Source) :
    Except CompileError Block :=
  match Block.ofSource g source with
  | .error e => .error (.parse e)
  | .ok script =>
    let checker : Checker := ⟨catalog, caseSensitive, source.lines⟩
    match (checker.check script).diagnostics.toList with
    | [] => .ok script
    | d :: _ => .error (.check d)

end InstallScript
