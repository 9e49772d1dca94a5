import InstallScript.Fault

/-!
The functions that a dialect offers to scripts. Each declares its parameters, the kind of its result
and what its failure does to a run. A call is matched with the declaration in two steps: its shape
first (`FunctionSpec.matchArguments`), then the kinds of its arguments (`FunctionSpec.bind`).
-/

namespace InstallScript

/-- What the failure of a host function does to a run. -/
inductive FailureMode
  /-- It ends the run. -/
  | fatal
  /-- It leaves a warning, and the call gives a fallback value. -/
  | recoverable
  deriving DecidableEq, Repr

/-- The name of a failure mode. -/
def FailureMode.name : FailureMode → String
  | fatal => "fatal"
  | recoverable => "recoverable"

/-- The kinds of argument that a parameter accepts. -/
inductive ParamKind
  | string
  | number
  | bool
  | any
  deriving DecidableEq, Repr

namespace ParamKind

/-- The name of a parameter kind. -/
def name : ParamKind → String
  | string => "string"
  | number => "number"
  | bool => "bool"
  | any => "any"

/-- Whether a parameter accepts values of a kind. None accepts void. -/
def accepts : ParamKind → ValueKind → Bool
  | _, .void => false
  | any, _ => true
  | string, kind => kind = .string
  | number, kind => kind = .number
  | bool, kind => kind = .bool

end ParamKind

/-- A declared parameter. -/
structure ParamSpec where
  name : String
  kind : ParamKind := .any
  default : Option Value := none
  deriving DecidableEq, Repr

/-- A parameter without a default has to be given. -/
def ParamSpec.required (p : ParamSpec) : Bool := p.default.isNone

/-- A declared function. -/
structure FunctionSpec where
  name : String
  params : List ParamSpec := []
  returns : ValueKind := .void
  failure : FailureMode := .fatal
  prompt : Bool := false
  doc : String := ""
  deriving DecidableEq, Repr

/-- Arguments by parameter name, in the order of the parameters. -/
abbrev Arguments := List (String × Value)

/-- The parameters of a call, by position and by name. -/
structure Matched where
  positional : List ParamSpec
  named : List ParamSpec
  deriving DecidableEq, Repr

namespace FunctionSpec

/-- A declaration in short. -/
def signature (f : FunctionSpec) : String :=
  let params := f.params.map fun p =>
    match p.default with
    | some value => s!"{p.name}: {p.kind.name} = {value.toDatum.shown}"
    | none => s!"{p.name}: {p.kind.name}"
  let list := ", ".intercalate params
  s!"{f.name}({list}) -> {f.returns.name}"

/-- The parameter with a name, letter case aside. -/
def param? (f : FunctionSpec) (name : String) : Option ParamSpec :=
  f.params.find? fun p => Text.fold p.name = Text.fold name

/-- The parameters of named arguments, none of them among those already taken. -/
def matchKeywords (f : FunctionSpec) : List String → List String → Except Fault (List ParamSpec)
  | _, [] => .ok []
  | taken, keyword :: rest =>
    match f.param? keyword with
    | none => .error (.unknownKeyword f.name keyword)
    | some p =>
      if taken.contains p.name then .error (.repeatedArgument f.name p.name)
      else (f.matchKeywords (p.name :: taken) rest).map (p :: ·)

/-- The parameters of a call with so many positional arguments and the given named ones. Every
parameter without a default has to be among them. -/
def matchArguments (f : FunctionSpec) (count : Nat) (keywords : List String) :
    Except Fault Matched :=
  if f.params.length < count then
    .error (.tooManyArguments f.name f.params.length count)
  else
    let positional := f.params.take count
    match f.matchKeywords (positional.map (·.name)) keywords with
    | .error fault => .error fault
    | .ok named =>
      let taken := (positional ++ named).map (·.name)
      let missing := f.params.filter fun p => p.required && !taken.contains p.name
      if missing.isEmpty then .ok ⟨positional, named⟩
      else .error (.missingArguments f.name (missing.map (·.name)))

/-- The first argument whose kind its parameter does not accept. -/
def kindFault? (f : FunctionSpec) (pairs : List (ParamSpec × Value)) : Option Fault :=
  pairs.findSome? fun (p, value) =>
    if p.kind.accepts value.kind then none
    else some (.argumentKind f.name p.name p.kind.name value.describe)

/-- The value of a parameter: the last argument given for its name, or its default. -/
def valueOf (pairs : List (ParamSpec × Value)) (p : ParamSpec) : Value :=
  match (pairs.reverse.find? fun pair => pair.1.name = p.name) with
  | some pair => pair.2
  | none => p.default.getD .void

/-- Arguments in the order of their names; of entries with one name the last value counts and the
first place. -/
def dedupe : Arguments → Arguments
  | [] => []
  | (name, value) :: rest =>
    let later := rest.reverse.lookup name
    (name, later.getD value) :: (dedupe rest).filter fun entry => entry.1 ≠ name

/-- The arguments of a call by parameter name. Values that are not given are defaults. -/
def bind (f : FunctionSpec) (args : List Value) (kwargs : List (String × Value)) :
    Except Fault Arguments :=
  match f.matchArguments args.length (kwargs.map (·.1)) with
  | .error fault => .error fault
  | .ok matched =>
    let pairs := matched.positional.zip args ++ matched.named.zip (kwargs.map (·.2))
    match f.kindFault? pairs with
    | some fault => .error fault
    | none => .ok (dedupe (f.params.map fun p => (p.name, valueOf pairs p)))

/-- What a call gives after a failure that does not end the run. -/
def fallback (f : FunctionSpec) : Value :=
  match f.returns with
  | .string => .string ""
  | .number => .ofInt 0
  | .bool => .bool false
  | .void => .void

end FunctionSpec

/-- The functions of a dialect, in the order of their declaration. No two names are the same letter
case aside. -/
structure Catalog where
  functions : List FunctionSpec := []
  deriving DecidableEq, Repr

namespace Catalog

/-- The function with a name, letter case aside. -/
def get? (c : Catalog) (name : String) : Option FunctionSpec :=
  c.functions.find? fun f => Text.fold f.name = Text.fold name

/-- Whether there is a function with a name. -/
def contains (c : Catalog) (name : String) : Bool := (c.get? name).isSome

/-- The names of the functions. -/
def names (c : Catalog) : List String := c.functions.map (·.name)

/-- Adds a function, unless there is one with its name. -/
def insert? (c : Catalog) (f : FunctionSpec) : Option Catalog :=
  if c.contains f.name then none else some ⟨c.functions ++ [f]⟩

end Catalog

end InstallScript
