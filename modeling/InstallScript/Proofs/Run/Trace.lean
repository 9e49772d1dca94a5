import InstallScript.Proofs.Run.Memory

/-!
Runs with a trace. A trace tells what a run does as far as the script shows it: where it comes to a
boundary at which it looks whether it has been cancelled, which calls of the script it makes, and
how often a loop runs its body. Every event also tells which block bodies the code being executed
stands in, which variables there are, and whether the run has been cancelled by then. The
definitions are those of `InstallScript.Run` with marks put in; that they describe the same runs is
`InstallScript.Session.traced_same`.
-/

namespace InstallScript

/-! ## Calls of expressions -/

mutual

/-- The calls in an expression, in the order in which they are made. -/
def Expr.calls : Expr → List Call
  | .literal _ _ => []
  | .var _ _ => []
  | .call c => c.calls
  | .unary _ _ e => e.calls
  | .binary _ _ a b => a.calls ++ b.calls

/-- A call behind the calls in its arguments. -/
def Call.calls : Call → List Call
  | .mk span name arguments keywords =>
    callsOfAll arguments ++ (callsOfKeywords keywords ++ [.mk span name arguments keywords])

/-- The calls in several expressions. -/
def callsOfAll : List Expr → List Call
  | [] => []
  | e :: rest => e.calls ++ callsOfAll rest

/-- The calls in several named arguments. -/
def callsOfKeywords : List KeywordArgument → List Call
  | [] => []
  | .mk _ _ e :: rest => e.calls ++ callsOfKeywords rest

end

/-- The calls in the guards of branches. -/
def callsOfGuards : List Branch → List Call
  | [] => []
  | .mk _ condition _ :: rest => condition.calls ++ callsOfGuards rest

/-- The calls in the expressions of a statement itself, its bodies aside: of an assignment its
value, of a choice its guards, of a loop its guard or its bounds and its step. -/
def Stmt.ownCalls : Stmt → List Call
  | .assign _ _ _ value => value.calls
  | .call c => c.calls
  | .choice _ branches _ => callsOfGuards branches
  | .whileLoop _ condition _ => condition.calls
  | .forLoop _ _ first last step _ =>
    first.calls ++ (last.calls ++ (step.map Expr.calls).getD [])
  | .block _ | .ret _ | .comment _ _ => []

/-! ## Events -/

/-- A place of a run at which it looks whether it has been cancelled. -/
inductive Boundary
  /-- A statement is about to start. -/
  | statement (s : Stmt)
  /-- A loop is about to look whether it goes on: to evaluate its guard, or to compare its counter. -/
  | round (s : Stmt)
  /-- The answer to a question is about to be taken as the value of a call. -/
  | answer (p : Prompt)

/-- What a run does. -/
inductive Deed
  /-- It comes to a boundary. -/
  | boundary (b : Boundary)
  /-- It makes a call of the script. -/
  | call (c : Call)
  /-- It runs the body of a loop once more, in a frame that has just been opened; the number tells how
  often it does so since it has come to the loop. A counted loop has bound its counter. -/
  | iteration (number : Nat) (counter : Option (String × Number))
  /-- It would have to run the body of a loop once more and must not. -/
  | excess (number : Nat)

/-- What a run does, and how things stand then. -/
structure Event where
  deed : Deed
  /-- The block bodies that the code being executed stands in, innermost first. -/
  blocks : List Block
  scopes : Scopes
  cancelled : Option String

/-- The run comes to a boundary. -/
def Event.AtBoundary (m : Event) : Prop := ∃ b, m.deed = .boundary b

/-- The statement in progress after some events, of which the last comes first: that of the last
boundary of a statement or of a round. -/
def statementOf : List Event → Option Stmt
  | [] => none
  | m :: earlier =>
    match m.deed with
    | .boundary (.statement s) => some s
    | .boundary (.round s) => some s
    | _ => statementOf earlier

/-- The calls that have been made since the last boundary of a statement or of a round, in order. -/
def callsSince : List Event → List Call
  | [] => []
  | m :: earlier =>
    match m.deed with
    | .boundary (.statement _) => []
    | .boundary (.round _) => []
    | .call c => callsSince earlier ++ [c]
    | _ => callsSince earlier

/-- The calls among events, in the order in which they are made. -/
def callsIn : List Event → List Call
  | [] => []
  | m :: earlier =>
    match m.deed with
    | .call c => callsIn earlier ++ [c]
    | _ => callsIn earlier

theorem callsIn_append (later earlier : List Event) :
    callsIn (later ++ earlier) = callsIn earlier ++ callsIn later := by
  induction later with
  | nil => exact (List.append_nil _).symm
  | cons m later ih =>
    rw [List.cons_append, callsIn, callsIn]
    split
    · rw [ih, List.append_assoc]
    · exact ih

/-- How often a loop that stands under so many block bodies has run its body, since the statement in
progress there has been started. -/
def iterationsSince (depth : Nat) : List Event → Nat
  | [] => 0
  | m :: earlier =>
    match m.deed with
    | .boundary (.statement _) =>
      if m.blocks.length = depth then 0 else iterationsSince depth earlier
    | .iteration _ _ =>
      if m.blocks.length = depth + 1 then iterationsSince depth earlier + 1
      else iterationsSince depth earlier
    | _ => iterationsSince depth earlier

/-! ## Runs with a trace -/

namespace Traced

variable {η : Type}

/-- A part of a run with a trace. -/
abbrev Step (η α : Type) := Run.Step (η × List Event) α

/-- Takes note of what the run does. -/
def mark (blocks : List Block) (deed : Deed) : Step η Unit := fun w =>
  .done () (w.mapHost fun h => (h.1, ⟨deed, blocks, w.context.scopes, w.cancelled⟩ :: h.2))

/-- Comes to a boundary, and ends the run if it has been cancelled. -/
def pass (blocks : List Block) (b : Boundary) : Step η Unit := do
  mark blocks (.boundary b)
  Run.checkCancelled

variable (setting : Setting (η × List Event)) (blocks : List Block)

/-- Takes the reply to the question of a call. -/
def takeReply (f : FunctionSpec) (span : Span) (p : Prompt) : Resumption → Step η Value
  | .leave exit => Action.leave exit
  | .reply .abort => Action.leave (.aborted cancelledByUser)
  | .reply reply => do
    pass blocks (.answer p)
    match p.accept reply with
    | .ok v => Run.checkResult f span (some v)
    | .error reason => Action.fail (.rejectedAnswer reason) span

/-- Calls a host function with arguments that fit its declaration. -/
def invoke (f : FunctionSpec) (span : Span) (arguments : Arguments) : Step η Value := fun w =>
  match w.call setting.host f arguments span with
  | (.value data, w') => Run.checkResult f span (Value.ofDatum? data) w'
  | (.failure message, w') => Run.handleFailure f span message w'
  | (.crash defect, w') => .exit (.crashed defect) w'
  | (.question p, w') => (Action.bind (Action.ask p) (takeReply blocks f span p)) w'

/-- Makes a call of the script with the values of its arguments. -/
def callWith (c : Call) (f : FunctionSpec) (args : List Value) (kwargs : List (String × Value)) :
    Step η Value :=
  match f.bind args kwargs with
  | .ok arguments => do
    mark blocks (.call c)
    invoke setting blocks f c.span arguments
  | .error fault => Action.fail fault c.span

/-! ### Expressions -/

mutual

/-- The value of an expression. -/
def evaluate : Expr → Step η Value
  | .literal _ value => Action.pure (Run.literalValue value)
  | .var span name => Run.readVariable span name
  | .call c => evaluateCall c
  | .unary span operator e => do
    let v ← evaluate e
    match operator with
    | .not => return .bool (!setting.truthiness.holds v)
    | .minus => Run.settle span v.negate
  | .binary span operator a b => do
    let left ← evaluate a
    match operator with
    | .and =>
      if setting.truthiness.holds left then do
        let right ← evaluate b
        return .bool (setting.truthiness.holds right)
      else return .bool false
    | .or =>
      if setting.truthiness.holds left then return .bool true
      else do
        let right ← evaluate b
        return .bool (setting.truthiness.holds right)
    | operator => do
      let right ← evaluate b
      Run.settle span (Value.apply operator left right)

/-- The value of a call. -/
def evaluateCall : Call → Step η Value
  | .mk span name arguments keywords =>
    match setting.catalog.get? name with
    | none => Action.fail (.unknownFunction name) span
    | some f => do
      let args ← evaluateAll arguments
      let kwargs ← evaluateKeywords keywords
      callWith setting blocks (.mk span name arguments keywords) f args kwargs

/-- The values of several expressions. -/
def evaluateAll : List Expr → Step η (List Value)
  | [] => Action.pure []
  | e :: rest => do
    let v ← evaluate e
    let vs ← evaluateAll rest
    return v :: vs

/-- The values of several named arguments. -/
def evaluateKeywords : List KeywordArgument → Step η (List (String × Value))
  | [] => Action.pure []
  | .mk _ name e :: rest => do
    let v ← evaluate e
    let vs ← evaluateKeywords rest
    return (name, v) :: vs

end

/-! ### Loops -/

/-- Runs the body as long as the test holds, at most the given number of times. The body has been
run `number - 1` times so far. -/
def repeatWhile (s : Stmt) (span : Span) (test : Step η Bool) (body : Nat → Step η Unit) :
    Nat → Nat → Step η Unit
  | 0, number => do
    pass blocks (.round s)
    let again ← test
    if again then do
      mark blocks (.excess number)
      Action.fail (.tooManyIterations setting.maxIterations) span
    else return ()
  | n + 1, number => do
    pass blocks (.round s)
    let again ← test
    if again then do
      body number
      repeatWhile s span test body n (number + 1)
    else return ()

/-- Runs the body of a counted loop for each number from the current one on, at most the given
number of times. The body has been run `number - 1` times so far. -/
def repeatFor (s : Stmt) (span : Span) (last step : Number) (body : Nat → Number → Step η Unit) :
    Nat → Nat → Number → Step η Unit
  | 0, number, current => do
    pass blocks (.round s)
    if Run.withinBounds last step current then do
      mark blocks (.excess number)
      Action.fail (.tooManyIterations setting.maxIterations) span
    else return ()
  | n + 1, number, current => do
    pass blocks (.round s)
    if Run.withinBounds last step current then do
      body number current
      let next ← Run.advanceBy step current
      repeatFor s span last step body n (number + 1) next
    else return ()

/-! ### Statements -/

mutual

/-- Runs a statement, which stands in the given block bodies. -/
def execute (blocks : List Block) : Stmt → Step η Unit
  | .assign span mode name value => do
    let v ← evaluate setting blocks value
    Run.writeVariable span mode name v
  | .call c => do
    let _ ← evaluateCall setting blocks c
    return ()
  | .choice _ branches none => do
    let _ ← executeFirst blocks branches
    return ()
  | .choice _ branches (some otherwise) => do
    let chosen ← executeFirst blocks branches
    if chosen then return () else executeBlock blocks "else" otherwise
  | .whileLoop span condition (.mk bodySpan statements) =>
    let body : Block := .mk bodySpan statements
    let test : Step η Bool := do
      let v ← evaluate setting blocks condition
      return setting.truthiness.holds v
    let each (number : Nat) : Step η Unit :=
      Run.inFrame "while-loop" do
        mark (body :: blocks) (.iteration number none)
        executeAll (body :: blocks) statements
    repeatWhile setting blocks (.whileLoop span condition body) span test each
      setting.maxIterations 1
  | .forLoop span counter first last step (.mk bodySpan statements) => do
    let body : Block := .mk bodySpan statements
    let s : Stmt := .forLoop span counter first last step body
    let first ← evaluate setting blocks first
    let last ← evaluate setting blocks last
    let step ← match step with
      | some e => evaluate setting blocks e
      | none => Action.pure (.ofInt 1)
    let first ← Run.loopNumber span "start" first
    let last ← Run.loopNumber span "end" last
    let step ← Run.loopNumber span "step" step
    if step.isZero then Action.fail .zeroStep span
    else
      let each (number : Nat) (current : Number) : Step η Unit :=
        Run.inFrame "for-loop" do
          Run.writeVariable span .bind counter (.ofNumber current)
          mark (body :: blocks) (.iteration number (some (counter, current)))
          executeAll (body :: blocks) statements
      repeatFor setting blocks s span last step each setting.maxIterations 1 first
  | .block body => executeBlock blocks "block" body
  | .ret _ => Action.leave .returned
  | .comment _ _ => Action.pure ()

/-- Runs the first branch whose guard holds, and tells whether there was one. -/
def executeFirst (blocks : List Block) : List Branch → Step η Bool
  | [] => Action.pure false
  | .mk _ condition body :: rest => do
    let v ← evaluate setting blocks condition
    if setting.truthiness.holds v then do
      executeBlock blocks "if-branch" body
      return true
    else executeFirst blocks rest

/-- Runs a block in a frame of its own. -/
def executeBlock (blocks : List Block) (name : String) : Block → Step η Unit
  | .mk span statements =>
    Run.inFrame name (executeAll (.mk span statements :: blocks) statements)

/-- Runs statements one after another, unless the run has been cancelled. -/
def executeAll (blocks : List Block) : List Stmt → Step η Unit
  | [] => Action.pure ()
  | s :: rest => do
    pass blocks (.statement s)
    execute blocks s
    executeAll blocks rest

end

end Traced

/-- A host that never looks at the trace. -/
def Host.untraced {η : Type} (host : Host η) : Host (η × List Event) :=
  host.remembering fun trace _ _ _ => trace

/-- The same setting for runs with a trace. -/
def Setting.traced {η : Type} (setting : Setting η) : Setting (η × List Event) :=
  setting.withHost setting.host.untraced

/-- A session that keeps a trace of its run. -/
def Session.ofTraced {η : Type} (setting : Setting η) (script : Block) (world : World η)
    (finisher : Finisher η) : Session (η × List Event) :=
  ⟨world.withMemory [], .fresh (Traced.executeAll setting.traced [] script.statements),
    finisher.withMemory⟩

end InstallScript
