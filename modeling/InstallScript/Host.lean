import InstallScript.Catalog
import InstallScript.Context
import InstallScript.Course
import InstallScript.Log

/-!
Hosts. A run reaches files and users only through the functions of its host. A host function sees
the arguments, the current directory and the state of the host; what it may do to the run is listed
in `Response`.
-/

namespace InstallScript

/-- What comes of a host function. -/
inductive Outcome
  | value (data : Datum)
  /-- The user has to answer first. -/
  | question (prompt : Prompt)
  | failure (message : String)
  | crash (defect : Defect)

/-- A warning that a host function records. Without a stretch of its own it is about the call in
progress. -/
structure Remark where
  message : String
  span : Option Span := none
  code : String := "W500"
  deriving DecidableEq, Repr

/-- What comes of a host function, with its effects on the run and on the host. -/
structure Response (η : Type) where
  outcome : Outcome
  host : η
  directory : List String
  /-- The warnings recorded, in order. -/
  warnings : List Remark := []
  /-- The host cancels the run, for the given reason. -/
  cancel : Option String := none
  log : List LogRecord := []

/-- The functions of a host with states `η`. -/
abbrev Host (η : Type) := FunctionSpec → Arguments → List String → η → Response η

/-- A response that only gives data. -/
def Response.ofValue {η : Type} (host : η) (directory : List String) (data : Datum) : Response η :=
  { outcome := .value data, host, directory }

/-- A response that only tells of a failure. -/
def Response.ofFailure {η : Type} (host : η) (directory : List String) (message : String) :
    Response η :=
  { outcome := .failure message, host, directory }

/-- The state of a run and its host. -/
structure World (η : Type) where
  context : Context
  host : η
  /-- The reason for which the run is cancelled, if it is. -/
  cancelled : Option String := none
  /-- The calls of host functions so far. -/
  calls : Array (String × Arguments) := #[]
  log : Array LogRecord := #[]

/-- The reason given when the user cancels. -/
def cancelledByUser : String := "cancelled by user"

namespace World

variable {η : Type}

/-- Changes what the run keeps track of. -/
def mapContext (w : World η) (f : Context → Context) : World η :=
  { w with context := f w.context }

/-- Changes the variables. -/
def mapScopes (w : World η) (f : Scopes → Scopes) : World η :=
  w.mapContext fun c => { c with scopes := f c.scopes }

/-- Adds a log record. -/
def note (w : World η) (level : LogLevel) (logger : Logger) (message : String) : World η :=
  { w with log := w.log.push ⟨level, logger, message⟩ }

/-- A call as log records show it. -/
def callText (name : String) (arguments : Arguments) : String :=
  let shown := arguments.map fun (param, value) => param ++ "=" ++ value.toDatum.shown
  name ++ "(" ++ ", ".intercalate shown ++ ")"

/-- Takes note of a call before it is made. -/
def beginCall (w : World η) (f : FunctionSpec) (arguments : Arguments) (span : Span) : World η :=
  let counted := w.mapContext fun c =>
    { c with invocations := c.invocations + 1, callSpan := some span }
  { counted with calls := counted.calls.push (f.name, arguments) }.note .debug .calls
    ("invoke " ++ callText f.name arguments)

/-- Lets the response to a call take effect. -/
def endCall (w : World η) (r : Response η) : World η :=
  let warned := w.mapContext fun c =>
    { r.warnings.foldl (fun c x => c.addWarning x.message x.span x.code) c with
      directory := r.directory }
  { warned.mapContext fun c => { c with callSpan := none } with
    host := r.host
    cancelled := match r.cancel with
      | some reason => some reason
      | none => w.cancelled
    log := w.log ++ r.log.toArray }

/-- Calls a host function. -/
def call (w : World η) (host : Host η) (f : FunctionSpec) (arguments : Arguments) (span : Span) :
    Outcome × World η :=
  let begun := w.beginCall f arguments span
  let r := host f arguments begun.context.directory begun.host
  (r.outcome, begun.endCall r)

/-- How often a function has been called, letter case aside. -/
def callCount (w : World η) (name : String) : Nat :=
  w.calls.toList.countP fun call => Text.fold call.1 = Text.fold name

end World

end InstallScript
