import InstallScript.Host
import InstallScript.Run.Operators
import InstallScript.Tree

/-!
The meaning of scripts: expressions give values, statements change the run, and both may stop to ask
the user. The meaning of a tree is put together from the meanings of its parts; a loop runs at most
as often as the settings allow.

Cancellation is looked at before each statement, before each test of a loop, and before the answer
to a question counts.
-/

namespace InstallScript

/-- What a script is run with. -/
structure Setting (η : Type) where
  catalog : Catalog
  host : Host η
  truthiness : Truthiness := {}
  /-- How often a loop may run its body. -/
  maxIterations : Nat := 10000

namespace Run

variable {η : Type}

/-- A part of a run. -/
abbrev Step (η α : Type) := Action (World η) α

/-! ## Single steps -/

/-- Ends the run if it has been cancelled. -/
def checkCancelled : Step η Unit := fun w =>
  match w.cancelled with
  | some reason => .exit (.aborted reason) w
  | none => .done () w

/-- A value or the trouble that there is none. -/
def settle (span : Span) : Except Trouble Value → Step η Value
  | .ok v => Action.pure v
  | .error (.fault fault) => Action.fail fault span
  | .error (.overflow o) => Action.leave (.crashed (.overflow o))

/-- The value of a variable. -/
def readVariable (span : Span) (name : String) : Step η Value := fun w =>
  match w.context.scopes.get? name with
  | some v => .done v w
  | none => Action.fail (.undefinedVariable name) span w

/-- Binds or changes a variable. -/
def writeVariable (span : Span) (mode : AssignMode) (name : String) (value : Value) :
    Step η Unit := fun w =>
  match mode with
  | .bind => .done () (w.mapScopes fun s => s.bind name value)
  | .update =>
    match w.context.scopes.update? name value with
    | some scopes => .done () (w.mapScopes fun _ => scopes)
    | none => Action.fail (.undefinedTarget name) span w

/-- Runs a block body in a frame of its own, which is closed however the body ends. -/
def inFrame {α : Type} (name : String) (body : Step η α) : Step η α :=
  Action.within (·.mapScopes (·.push name)) (·.mapScopes (·.pop)) body

/-! ## Calls -/

/-- The result of a call, which has to be of the declared kind. -/
def checkResult (f : FunctionSpec) (span : Span) (result : Option Value) : Step η Value :=
  match result with
  | some v =>
    if v.kind = f.returns then Action.pure v
    else Action.fail (.wrongResult f.name f.returns (some v)) span
  | none => Action.fail (.wrongResult f.name f.returns none) span

/-- What a call gives whose host function has failed. -/
def handleFailure (f : FunctionSpec) (span : Span) (message : String) : Step η Value := fun w =>
  match f.failure with
  | .fatal =>
    Action.fail (.fatalFailure f.name message) span
      (w.note .error .runs s!"{f.name}() failed: {message}")
  | .recoverable =>
    .done f.fallback
      ((w.note .warning .runs s!"{f.name}() failed, continuing: {message}").mapContext fun c =>
        c.addWarning s!"{f.name}(): {message}" (some span) "W501")

/-- Takes the reply to the question of a call. -/
def takeReply (f : FunctionSpec) (span : Span) (p : Prompt) : Resumption → Step η Value
  | .leave exit => Action.leave exit
  | .reply .abort => Action.leave (.aborted cancelledByUser)
  | .reply reply => do
    checkCancelled
    match p.accept reply with
    | .ok v => checkResult f span (some v)
    | .error reason => Action.fail (.rejectedAnswer reason) span

/-- Calls a host function with arguments that fit its declaration. -/
def invoke (setting : Setting η) (f : FunctionSpec) (span : Span) (arguments : Arguments) :
    Step η Value := fun w =>
  match w.call setting.host f arguments span with
  | (.value data, w') => checkResult f span (Value.ofDatum? data) w'
  | (.failure message, w') => handleFailure f span message w'
  | (.crash defect, w') => .exit (.crashed defect) w'
  | (.question p, w') => (Action.bind (Action.ask p) (takeReply f span p)) w'

/-- Calls a host function with the arguments that a script gives. -/
def callWith (setting : Setting η) (f : FunctionSpec) (span : Span) (args : List Value)
    (kwargs : List (String × Value)) : Step η Value :=
  match f.bind args kwargs with
  | .ok arguments => invoke setting f span arguments
  | .error fault => Action.fail fault span

/-! ## Expressions -/

/-- The value of a literal. -/
def literalValue : Literal → Value
  | .number n => .ofNumber n
  | .string s => .string s
  | .bool b => .bool b

section

variable (setting : Setting η)

mutual

/-- The value of an expression. -/
def evaluate : Expr → Step η Value
  | .literal _ value => Action.pure (literalValue value)
  | .var span name => readVariable span name
  | .call c => evaluateCall c
  | .unary span operator e => do
    let v ← evaluate e
    match operator with
    | .not => return .bool (!setting.truthiness.holds v)
    | .minus => settle span v.negate
  | .binary span operator a b => do
    let left ← evaluate a
    match operator with
    | .and =>
      if setting.truthiness.holds left then do
        let right ← evaluate b
        return .bool (setting.truthiness.holds right)
      else return .bool false
    | .or =>
      if setting.truthiness.holds left then return .bool true
      else do
        let right ← evaluate b
        return .bool (setting.truthiness.holds right)
    | operator => do
      let right ← evaluate b
      settle span (Value.apply operator left right)

/-- The value of a call. The function is looked up first and the arguments are evaluated from left
to right. -/
def evaluateCall : Call → Step η Value
  | .mk span name arguments keywords =>
    match setting.catalog.get? name with
    | none => Action.fail (.unknownFunction name) span
    | some f => do
      let args ← evaluateAll arguments
      let kwargs ← evaluateKeywords keywords
      callWith setting f span args kwargs

/-- The values of several expressions. -/
def evaluateAll : List Expr → Step η (List Value)
  | [] => Action.pure []
  | e :: rest => do
    let v ← evaluate e
    let vs ← evaluateAll rest
    return v :: vs

/-- The values of several named arguments. -/
def evaluateKeywords : List KeywordArgument → Step η (List (String × Value))
  | [] => Action.pure []
  | .mk _ name e :: rest => do
    let v ← evaluate e
    let vs ← evaluateKeywords rest
    return (name, v) :: vs

end

/-! ## Loops -/

/-- Runs the body as long as the test holds, at most the given number of times. -/
def repeatWhile (span : Span) (test : Step η Bool) (body : Step η Unit) : Nat → Step η Unit
  | 0 => do
    checkCancelled
    let again ← test
    if again then Action.fail (.tooManyIterations setting.maxIterations) span
    else return ()
  | n + 1 => do
    checkCancelled
    let again ← test
    if again then do
      body
      repeatWhile span test body n
    else return ()

/-- Whether a counted loop goes on. -/
def withinBounds (last step current : Number) : Bool :=
  let zero := Number.int 0
  !((zero.less step && last.less current) || (step.less zero && current.less last))

/-- Adds the step of a counted loop. -/
def advanceBy (step current : Number) : Step η Number :=
  match current.add step with
  | .ok next => Action.pure next
  | .error o => Action.leave (.crashed (.overflow o))

/-- Runs the body of a counted loop for each number from the current one on, at most the given number
of times. -/
def repeatFor (span : Span) (last step : Number) (body : Number → Step η Unit) :
    Nat → Number → Step η Unit
  | 0, current => do
    checkCancelled
    if withinBounds last step current then
      Action.fail (.tooManyIterations setting.maxIterations) span
    else return ()
  | n + 1, current => do
    checkCancelled
    if withinBounds last step current then do
      body current
      let next ← advanceBy step current
      repeatFor span last step body n next
    else return ()

/-- A number that a counted loop needs. -/
def loopNumber (span : Span) (label : String) : Value → Step η Number
  | .number n => Action.pure n
  | v => Action.fail (.loopBound label v) span

/-! ## Statements -/

mutual

/-- Runs a statement. -/
def execute : Stmt → Step η Unit
  | .assign span mode name value => do
    let v ← evaluate setting value
    writeVariable span mode name v
  | .call c => do
    let _ ← evaluateCall setting c
    return ()
  | .choice _ branches none => do
    let _ ← executeFirst branches
    return ()
  | .choice _ branches (some otherwise) => do
    let chosen ← executeFirst branches
    if chosen then return () else executeBlock "else" otherwise
  | .whileLoop span condition body =>
    let test : Step η Bool := do
      let v ← evaluate setting condition
      return setting.truthiness.holds v
    repeatWhile setting span test (executeBlock "while-loop" body) setting.maxIterations
  | .forLoop span counter first last step (.mk _ statements) => do
    let first ← evaluate setting first
    let last ← evaluate setting last
    let step ← match step with
      | some e => evaluate setting e
      | none => Action.pure (.ofInt 1)
    let first ← loopNumber span "start" first
    let last ← loopNumber span "end" last
    let step ← loopNumber span "step" step
    if step.isZero then Action.fail .zeroStep span
    else
      let each (current : Number) : Step η Unit :=
        inFrame "for-loop" do
          writeVariable span .bind counter (.ofNumber current)
          executeAll statements
      repeatFor setting span last step each setting.maxIterations first
  | .block body => executeBlock "block" body
  | .ret _ => Action.leave .returned
  | .comment _ _ => Action.pure ()

/-- Runs the first branch whose guard holds, and tells whether there was one. -/
def executeFirst : List Branch → Step η Bool
  | [] => Action.pure false
  | .mk _ condition body :: rest => do
    let v ← evaluate setting condition
    if setting.truthiness.holds v then do
      executeBlock "if-branch" body
      return true
    else executeFirst rest

/-- Runs a block in a frame of its own. -/
def executeBlock (name : String) : Block → Step η Unit
  | .mk _ statements => inFrame name (executeAll statements)

/-- Runs statements one after another, unless the run has been cancelled. -/
def executeAll : List Stmt → Step η Unit
  | [] => Action.pure ()
  | s :: rest => do
    checkCancelled
    execute s
    executeAll rest

end

end

end Run

end InstallScript
