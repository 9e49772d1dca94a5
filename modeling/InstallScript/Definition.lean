import InstallScript.Catalog
import InstallScript.Grammar
import InstallScript.Text.Identifier

/-!
Definitions of dialects. A dialect says which version of the language its scripts are in, which
functions they may call, and how they read values as conditions. `Definition.ofDatum?` reads a
definition from plain data, as a file holds it; the first mistake found counts.
-/

namespace InstallScript

/-- What a dialect declares. -/
structure Definition where
  name : String
  grammar : Grammar
  catalog : Catalog
  truthiness : Truthiness := {}
  /-- Variables that differ in letter case are different. -/
  caseSensitiveNames : Bool := false
  description : String := ""
  deriving DecidableEq, Repr

/-- What is wrong with the data of a definition. Values are held as messages show them. -/
inductive DefinitionFault
  | rootKind
  | missingKey (key : String)
  | versionText (text : String)
  | versionNaN
  | versionKind (kind : String)
  | unknownVersion (shown : String)
  | noFunctions
  | functionKind (function : String)
  | noFailureMode (function : String)
  | unnamedParameter (function : String)
  | parameterName (function name : String)
  | invalidWord (place shown : String) (allowed : List String)
  | wrongDefault (place shown : String) (kind : ParamKind)
  | requiredAfterDefault (function parameter : String)
  | duplicateFunction (function : String)
  deriving DecidableEq, Repr

/-- The wording of a fault. -/
def DefinitionFault.message : DefinitionFault → String
  | rootKind => "expected a mapping at the root"
  | missingKey key => s!"missing required key '{key}'"
  | versionText text => notIntegerMessage 10 text
  | versionNaN => "cannot convert float NaN to integer"
  | versionKind kind =>
    s!"int() argument must be a string, a bytes-like object or a real number, not '{kind}'"
  | unknownVersion shown => s!"unknown grammar version {shown} (known: [1, 2])"
  | noFunctions => "'functions' must be a non-empty mapping"
  | functionKind function => s!"{function}: expected a mapping"
  | noFailureMode function => s!"{function}: missing 'on_failure' (fatal or recoverable)"
  | unnamedParameter function => s!"{function}: each parameter needs a 'name'"
  | parameterName function name =>
    s!"{function}: parameter name {Text.quoted name} is not an identifier"
  | invalidWord place shown allowed =>
    let words := ", ".intercalate allowed
    s!"{place}: invalid value {shown} (expected one of: {words})"
  | wrongDefault place shown kind => s!"{place}: default {shown} is not a {kind.name}"
  | requiredAfterDefault function parameter =>
    s!"{function}: required parameter '{parameter}' follows a defaulted one"
  | duplicateFunction function => s!"duplicate function '{function}' in catalog"

/-- Why data gives no definition. Besides a fault, data can be of a kind that an entry cannot be
read from at all. -/
inductive DefinitionError
  | fault (fault : DefinitionFault)
  | infiniteVersion
  | notIterable (kind : String)
  | notMapping (kind : String)
  | notText (kind : String)
  deriving DecidableEq, Repr

/-- The wording of an error in a definition that comes from the given source. A function that is
declared twice is told without the source. -/
def DefinitionError.message (source : String) : DefinitionError → String
  | fault (.duplicateFunction function) => (DefinitionFault.duplicateFunction function).message
  | fault f => s!"{source}: {f.message}"
  | infiniteVersion => "cannot convert float infinity to integer"
  | notIterable kind => s!"'{kind}' object is not iterable"
  | notMapping kind => s!"'{kind}' object has no attribute 'get'"
  | notText kind => s!"'{kind}' object has no attribute 'casefold'"

namespace Definition

/-- A reading that may fail. -/
abbrev Reading := Except DefinitionError

/-- Fails with a fault. -/
def reject {α : Type} (f : DefinitionFault) : Reading α := .error (.fault f)

/-- The whole number that a datum gives for a version. Texts are read as whole numbers, and
fractions are dropped. -/
def versionOf : Datum → Reading Int
  | .bool b => .ok (if b then 1 else 0)
  | .number (.int n) => .ok n
  | .number (.float .nan) => reject .versionNaN
  | .number (.float (.infinite _)) => .error .infiniteVersion
  | .number (.float x) => .ok x.truncate
  | .text s =>
    match readInteger? s with
    | some n => .ok n
    | none => reject (.versionText s)
  | other => reject (.versionKind other.qualifiedKind)

/-- The version of the language that a datum asks for. -/
def grammarOf (d : Datum) : Reading Grammar := do
  let version ← versionOf d
  match Grammar.ofVersion? version with
  | some g => return g
  | none => reject (.unknownVersion (toString version))

/-- The items that a datum holds: those of a list, the keys of a mapping, the characters of a
text. -/
def itemsOf : Datum → Reading (List Datum)
  | .list items => .ok items
  | .mapping entries => .ok (entries.map (·.1))
  | .text s => .ok (s.toList.map fun c => .text c.toString)
  | other => .error (.notIterable other.qualifiedKind)

/-- The entry of a word in a table, whatever the letter case. -/
def wordOf {α : Type} (table : List (String × α)) (place : String) (d : Datum) : Reading α :=
  match table.lookup (lowerAscii d.plain) with
  | some meaning => .ok meaning
  | none => reject (.invalidWord place d.shown (table.map (·.1)))

/-- The words for kinds of parameters. -/
def paramKinds : List (String × ParamKind) :=
  [ParamKind.string, .number, .bool, .any].map fun kind => (kind.name, kind)

/-- The words for kinds of results. -/
def valueKinds : List (String × ValueKind) :=
  [ValueKind.string, .number, .bool, .void].map fun kind => (kind.name, kind)

/-- The words for failure modes. -/
def failureModes : List (String × FailureMode) :=
  [FailureMode.fatal, .recoverable].map fun mode => (mode.name, mode)

/-- The default of a parameter, which has to be of its kind. -/
def defaultOf (place : String) (kind : ParamKind) (d : Datum) : Reading Value :=
  match Value.ofDatum? d with
  | some value =>
    if kind.accepts value.kind then .ok value else reject (.wrongDefault place d.shown kind)
  | none => reject (.wrongDefault place d.shown kind)

/-- A parameter. -/
def paramOf (function : String) (d : Datum) : Reading ParamSpec :=
  match d with
  | .mapping entries =>
    match Datum.entry? entries "name" with
    | none => reject (.unnamedParameter function)
    | some given => do
      let name := given.plain
      if !Text.isIdentifier name then reject (.parameterName function name)
      else
        let place := s!"{function}.{name}"
        let kind ← wordOf paramKinds place ((Datum.entry? entries "kind").getD (.text "any"))
        match Datum.entry? entries "default" with
        | none => return { name, kind }
        | some value => return { name, kind, default := some (← defaultOf place kind value) }
  | _ => reject (.unnamedParameter function)

/-- The first parameter that has to be given and stands behind one with a default. -/
def misplaced? : List ParamSpec → Option ParamSpec
  | [] => none
  | p :: rest => if p.required then misplaced? rest else rest.find? (·.required)

/-- A text without the blanks around it. -/
def trimmed (d : Option Datum) : String :=
  match d with
  | some given => Text.stripped given.plain
  | none => ""

/-- Whether an entry is given as a yes. -/
def flag (entries : List (Datum × Datum)) (name : String) (otherwise : Bool) : Bool :=
  match Datum.entry? entries name with
  | some given => given.isTruthy
  | none => otherwise

/-- The parameters of a function; an entry that says nothing declares none. -/
def paramsOf (function : String) (d : Option Datum) : Reading (List ParamSpec) :=
  match d with
  | none => .ok []
  | some given =>
    if given.isTruthy then do
      (← itemsOf given).mapM (paramOf function)
    else .ok []

/-- A function. What its failure means has to be said. -/
def functionOf (name : String) (d : Datum) : Reading FunctionSpec :=
  match d with
  | .mapping entries =>
    match Datum.entry? entries "on_failure" with
    | none => reject (.noFailureMode name)
    | some mode => do
      let params ← paramsOf name (Datum.entry? entries "params")
      match misplaced? params with
      | some p => reject (.requiredAfterDefault name p.name)
      | none =>
        let returns ← wordOf valueKinds (name ++ ".returns")
          ((Datum.entry? entries "returns").getD (.text "void"))
        let failure ← wordOf failureModes (name ++ ".on_failure") mode
        return { name, params, returns, failure, prompt := flag entries "prompt" false,
                 doc := trimmed (Datum.entry? entries "doc") }
  | _ => reject (.functionKind name)

/-- The functions of a dialect, added one after another. -/
def catalogOf : Catalog → List (Datum × Datum) → Reading Catalog
  | catalog, [] => .ok catalog
  | catalog, (name, d) :: rest => do
    let f ← functionOf name.plain d
    match catalog.insert? f with
    | some larger => catalogOf larger rest
    | none => reject (.duplicateFunction f.name)

/-- The folded texts that count as no. -/
def falseStringsOf (d : Datum) : Reading (List String) := do
  (← itemsOf d).mapM fun item =>
    match item with
    | .text s => .ok (Text.fold s)
    | other => .error (.notText other.qualifiedKind)

/-- The reading of values as conditions. -/
def truthinessOf (d : Option Datum) : Reading Truthiness :=
  match d with
  | none => .ok {}
  | some given =>
    if !given.isTruthy then .ok {}
    else
      match given with
      | .mapping entries => do
        let strings ← falseStringsOf ((Datum.entry? entries "false_strings").getD (.list []))
        return {
          emptyStringIsFalse := flag entries "empty_string_is_false" true
          zeroIsFalse := flag entries "zero_is_false" true
          falseStrings := strings.eraseDups }
      | other => .error (.notMapping other.qualifiedKind)

/-- The entry at a key that has to be there. -/
def required (entries : List (Datum × Datum)) (key : String) : Reading Datum :=
  match Datum.entry? entries key with
  | some given => .ok given
  | none => reject (.missingKey key)

/-- The entries of a mapping that is not empty. -/
def functionsOf : Datum → Reading (List (Datum × Datum))
  | .mapping (first :: rest) => .ok (first :: rest)
  | _ => reject .noFunctions

/-- The definition that a datum holds. -/
def ofDatum? (d : Datum) : Reading Definition :=
  match d with
  | .mapping entries => do
    let name ← required entries "dialect"
    let version ← required entries "grammar"
    let functions ← required entries "functions"
    let grammar ← grammarOf version
    let catalog ← catalogOf {} (← functionsOf functions)
    let truthiness ← truthinessOf (Datum.entry? entries "truthiness")
    return {
      name := name.plain
      grammar, catalog, truthiness
      caseSensitiveNames := flag entries "case_sensitive_names" false
      description := trimmed (Datum.entry? entries "description") }
  | _ => reject .rootKind

end Definition

end InstallScript
