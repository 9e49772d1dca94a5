import Mathlib.Tactic.Ring
import InstallScript.Proofs.Run.Trace

/-!
Runs beside their traces. A relation between the steps of a run and the steps of the same run with a
trace that is kept by the ways to put steps together, and that holds of single steps, of marks and
of calls, holds of whole trees (`StatementTracing.executeAll`). On the way it counts: a relation may
speak of the calls that an expression may make, in order, and of a bound for the calls that a
statement may make (`Stmt.weight`). What a run keeps by itself is the case of a relation that does
not look at the other side.
-/

namespace InstallScript

/-! ## Weights -/

mutual

/-- A bound for the calls that a statement makes, if no loop runs its body more than the given
number of times. -/
def Stmt.weight (limit : Nat) : Stmt → Nat
  | .assign _ _ _ value => value.calls.length
  | .call c => c.calls.length
  | .choice _ branches none => branchesWeight limit branches
  | .choice _ branches (some otherwise) => branchesWeight limit branches + otherwise.weight limit
  | .whileLoop _ condition body =>
    (limit + 1) * condition.calls.length + limit * body.weight limit
  | .forLoop _ _ first last none body =>
    first.calls.length + last.calls.length + limit * body.weight limit
  | .forLoop _ _ first last (some step) body =>
    first.calls.length + last.calls.length + step.calls.length + limit * body.weight limit
  | .block body => body.weight limit
  | .ret _ => 0
  | .comment _ _ => 0

/-- The weight of the guards and the bodies of several branches. -/
def branchesWeight (limit : Nat) : List Branch → Nat
  | [] => 0
  | .mk _ condition body :: rest =>
    condition.calls.length + body.weight limit + branchesWeight limit rest

/-- The weight of the statements of a block. -/
def Block.weight (limit : Nat) : Block → Nat
  | .mk _ statements => stmtsWeight limit statements

/-- The weight of several statements. -/
def stmtsWeight (limit : Nat) : List Stmt → Nat
  | [] => 0
  | s :: rest => s.weight limit + stmtsWeight limit rest

end

namespace Run

/-- The variable that a node binds or changes, and how it finds it. -/
def written? : Node → Option (AssignMode × String)
  | .stmt (.assign _ mode name _) => some (mode, name)
  | .stmt (.forLoop _ counter _ _ _ _) => some (.bind, counter)
  | _ => none

/-- All variables that are bound or changed among the nodes are targets. -/
def Changes (targets : AssignMode → String → Prop) (nodes : List Node) : Prop :=
  ∀ node ∈ nodes, ∀ mode name, written? node = some (mode, name) → targets mode name

theorem Changes.tail {targets : AssignMode → String → Prop} {node : Node} {nodes : List Node}
    (changes : Changes targets (node :: nodes)) : Changes targets nodes :=
  (List.forall_mem_cons.1 changes).2

theorem Changes.append {targets : AssignMode → String → Prop} {nodes nodes' : List Node}
    (changes : Changes targets (nodes ++ nodes')) :
    Changes targets nodes ∧ Changes targets nodes' :=
  List.forall_mem_append.1 changes

section

variable {η : Type}

/-- A relation between the steps that the expressions of a script take and the same steps with a
trace. It tells which calls may be made, in which order. -/
structure ExpressionTracing (setting : Setting η) (blocks : List Block)
    (rel : ∀ {α : Type}, List Call → Step η α → Traced.Step η α → Prop) : Prop where
  pure : ∀ {α : Type} {a : α}, rel [] (Pure.pure a) (Pure.pure a)
  bind : ∀ {α β : Type} {calls calls' : List Call} {m : Step η α} {m' : Traced.Step η α}
    {next : α → Step η β} {next' : α → Traced.Step η β}, rel calls m m' →
      (∀ a, rel calls' (next a) (next' a)) → rel (calls ++ calls') (m >>= next) (m' >>= next')
  /-- Calls may be left out. -/
  idle : ∀ {α : Type} {calls : List Call} {m : Step η α} {m' : Traced.Step η α},
    rel [] m m' → rel calls m m'
  fail : ∀ {α : Type} {fault : Fault} {span : Span}, fault.code ≠ "E404" →
    rel (α := α) [] (Action.fail fault span) (Action.fail fault span)
  overflow : ∀ {α : Type} {cause : Overflow},
    rel (α := α) [] (Action.leave (.crashed (.overflow cause)))
      (Action.leave (.crashed (.overflow cause)))
  readVariable : ∀ {span : Span} {name : String},
    rel [] (readVariable span name) (readVariable span name)
  call : ∀ {c : Call} {f : FunctionSpec} {args : List Value} {kwargs : List (String × Value)},
    setting.catalog.get? c.name = some f → rel [c] (callWith setting f c.span args kwargs)
      (Traced.callWith setting.traced blocks c f args kwargs)

namespace ExpressionTracing

variable {setting : Setting η} {blocks : List Block}
  {rel : ∀ {α : Type}, List Call → Step η α → Traced.Step η α → Prop}

/-! ## Expressions -/

theorem apply (tracing : ExpressionTracing setting blocks rel) {span : Span}
    {operator : BinaryOperator} {a b : Value} :
    rel [] (settle span (Value.apply operator a b)) (settle span (Value.apply operator a b)) := by
  cases eq : Value.apply operator a b with
  | ok v => exact tracing.pure
  | error trouble =>
    cases trouble with
    | fault fault =>
      refine tracing.fail ?_
      rcases apply_fault_code eq with code | code <;> simp [code]
    | overflow cause => exact tracing.overflow

theorem negate (tracing : ExpressionTracing setting blocks rel) {span : Span} {v : Value} :
    rel [] (settle span v.negate) (settle span v.negate) := by
  cases v with
  | number n => exact tracing.pure
  | _ => exact tracing.fail (by simp [Fault.code])

/-- A step that makes no calls, behind one that may. -/
theorem andThen (tracing : ExpressionTracing setting blocks rel) {α β : Type} {calls : List Call}
    {m : Step η α} {m' : Traced.Step η α} {next : α → Step η β} {next' : α → Traced.Step η β}
    (first : rel calls m m') (second : ∀ a, rel [] (next a) (next' a)) :
    rel calls (m >>= next) (m' >>= next') := by
  simpa using tracing.bind first second

mutual

theorem evaluate (tracing : ExpressionTracing setting blocks rel) : ∀ e : Expr,
    rel e.calls (Run.evaluate setting e) (Traced.evaluate setting.traced blocks e)
  | .literal _ value => tracing.pure
  | .var span name => tracing.readVariable
  | .call c => evaluateCall tracing c
  | .unary span o e => by
    have inner := evaluate tracing e
    cases o with
    | not => exact tracing.andThen inner fun v => tracing.pure
    | minus => exact tracing.andThen inner fun v => tracing.negate
  | .binary span o a b => by
    have first := evaluate tracing a
    have second := evaluate tracing b
    cases o with
    | and =>
      refine tracing.bind first fun v => ?_
      show rel _ (if setting.truthiness.holds v then _ else _)
        (if setting.truthiness.holds v then _ else _)
      split
      · exact tracing.andThen second fun w => tracing.pure
      · exact tracing.idle tracing.pure
    | or =>
      refine tracing.bind first fun v => ?_
      show rel _ (if setting.truthiness.holds v then _ else _)
        (if setting.truthiness.holds v then _ else _)
      split
      · exact tracing.idle tracing.pure
      · exact tracing.andThen second fun w => tracing.pure
    | _ => exact tracing.bind first fun v => tracing.andThen second fun w => tracing.apply

theorem evaluateCall (tracing : ExpressionTracing setting blocks rel) : ∀ c : Call,
    rel c.calls (Run.evaluateCall setting c) (Traced.evaluateCall setting.traced blocks c)
  | .mk span name arguments keywords => by
    unfold Run.evaluateCall Traced.evaluateCall
    rw [show setting.traced.catalog = setting.catalog from rfl]
    cases found : setting.catalog.get? name with
    | none =>
      refine tracing.idle (tracing.fail ?_)
      simp [Fault.code]
    | some f =>
      refine tracing.bind (evaluateAll tracing arguments) fun args => ?_
      refine tracing.bind (evaluateKeywords tracing keywords) fun kwargs => ?_
      exact tracing.call found

theorem evaluateAll (tracing : ExpressionTracing setting blocks rel) : ∀ es : List Expr,
    rel (callsOfAll es) (Run.evaluateAll setting es)
      (Traced.evaluateAll setting.traced blocks es)
  | [] => tracing.pure
  | e :: es => by
    refine tracing.bind (evaluate tracing e) fun v => ?_
    exact tracing.andThen (evaluateAll tracing es) fun vs => tracing.pure

theorem evaluateKeywords (tracing : ExpressionTracing setting blocks rel) :
    ∀ ks : List KeywordArgument,
      rel (callsOfKeywords ks) (Run.evaluateKeywords setting ks)
        (Traced.evaluateKeywords setting.traced blocks ks)
  | [] => tracing.pure
  | .mk _ name e :: ks => by
    refine tracing.bind (evaluate tracing e) fun v => ?_
    exact tracing.andThen (evaluateKeywords tracing ks) fun vs => tracing.pure

end

end ExpressionTracing

/-- A relation between the steps of a script in some block bodies and the same steps with a trace.
It tells how many calls may be made at most. -/
structure StatementTracing (setting : Setting η) (targets : AssignMode → String → Prop)
    (rel : ∀ {α : Type}, List Block → Nat → Step η α → Traced.Step η α → Prop) : Prop where
  pure : ∀ {α : Type} {blocks : List Block} {a : α}, rel blocks 0 (Pure.pure a) (Pure.pure a)
  bind : ∀ {α β : Type} {blocks : List Block} {n k : Nat} {m : Step η α} {m' : Traced.Step η α}
    {next : α → Step η β} {next' : α → Traced.Step η β}, rel blocks n m m' →
      (∀ a, rel blocks k (next a) (next' a)) → rel blocks (n + k) (m >>= next) (m' >>= next')
  mono : ∀ {α : Type} {blocks : List Block} {n k : Nat} {m : Step η α} {m' : Traced.Step η α},
    n ≤ k → rel blocks n m m' → rel blocks k m m'
  leave : ∀ {α : Type} {blocks : List Block} {why : Exit},
    rel (α := α) blocks 0 (Action.leave why) (Action.leave why)
  /-- A mark other than that of a call. -/
  mark : ∀ {blocks : List Block} {deed : Deed}, (∀ c, deed ≠ .call c) →
    rel blocks 0 (Pure.pure ()) (Traced.mark blocks deed)
  checkCancelled : ∀ {blocks : List Block}, rel blocks 0 checkCancelled checkCancelled
  readVariable : ∀ {blocks : List Block} {span : Span} {name : String},
    rel blocks 0 (readVariable span name) (readVariable span name)
  writeVariable : ∀ {blocks : List Block} {span : Span} {mode : AssignMode} {name : String}
    {value : Value}, targets mode name →
      rel blocks 0 (writeVariable span mode name value) (writeVariable span mode name value)
  inFrame : ∀ {α : Type} {blocks : List Block} {n : Nat} {name : String} (body : Block)
    {m : Step η α} {m' : Traced.Step η α}, rel (body :: blocks) n m m' →
      rel blocks n (inFrame name m) (inFrame name m')
  call : ∀ {blocks : List Block} {c : Call} {f : FunctionSpec} {args : List Value}
    {kwargs : List (String × Value)}, setting.catalog.get? c.name = some f →
      rel blocks 1 (callWith setting f c.span args kwargs)
        (Traced.callWith setting.traced blocks c f args kwargs)

namespace StatementTracing

variable {setting : Setting η} {targets : AssignMode → String → Prop}
  {rel : ∀ {α : Type}, List Block → Nat → Step η α → Traced.Step η α → Prop}

/-- Of the calls of expressions such a relation tells how many there are. -/
theorem expressions (tracing : StatementTracing setting targets rel) (blocks : List Block) :
    ExpressionTracing setting blocks fun calls m m' => rel blocks calls.length m m' where
  pure := tracing.pure
  bind first second := by
    rw [List.length_append]
    exact tracing.bind first second
  idle related := tracing.mono (Nat.zero_le _) related
  fail _ := tracing.leave
  overflow := tracing.leave
  readVariable := tracing.readVariable
  call := tracing.call

variable {blocks : List Block}

/-- A step that makes no calls, behind one that may. -/
theorem andThen (tracing : StatementTracing setting targets rel) {α β : Type} {n : Nat}
    {m : Step η α} {m' : Traced.Step η α} {next : α → Step η β} {next' : α → Traced.Step η β}
    (first : rel blocks n m m') (second : ∀ a, rel blocks 0 (next a) (next' a)) :
    rel blocks n (m >>= next) (m' >>= next') :=
  tracing.bind first second

/-- A step that may make calls, behind one that makes none. -/
theorem before (tracing : StatementTracing setting targets rel) {α β : Type} {n : Nat}
    {m : Step η α} {m' : Traced.Step η α} {next : α → Step η β} {next' : α → Traced.Step η β}
    (first : rel blocks 0 m m') (second : ∀ a, rel blocks n (next a) (next' a)) :
    rel blocks n (m >>= next) (m' >>= next') := by
  simpa using tracing.bind first second

/-- A mark before a step. -/
theorem marked (tracing : StatementTracing setting targets rel) {α : Type} {n : Nat} {deed : Deed}
    {m : Step η α} {m' : Traced.Step η α} (other : ∀ c, deed ≠ .call c)
    (related : rel blocks n m m') : rel blocks n m (Traced.mark blocks deed >>= fun _ => m') := by
  have both : rel blocks n (Pure.pure () >>= fun _ => m) (Traced.mark blocks deed >>= fun _ => m') :=
    tracing.before (tracing.mark other) fun _ => related
  exact both

theorem pass (tracing : StatementTracing setting targets rel) {b : Boundary} :
    rel blocks 0 Run.checkCancelled (Traced.pass blocks b) :=
  tracing.marked nofun tracing.checkCancelled

/-! ## Loops -/

theorem repeatWhile (tracing : StatementTracing setting targets rel) {s : Stmt} {span : Span}
    {test : Step η Bool} {test' : Traced.Step η Bool} {body : Step η Unit}
    {body' : Nat → Traced.Step η Unit} {g b : Nat} (tests : rel blocks g test test')
    (bodies : ∀ number, rel blocks b body (body' number)) (n number : Nat) :
    rel blocks ((n + 1) * g + n * b) (Run.repeatWhile setting span test body n)
      (Traced.repeatWhile setting.traced blocks s span test' body' n number) := by
  induction n generalizing number with
  | zero =>
    have weight : (0 + 1) * g + 0 * b = g := by omega
    rw [weight]
    refine tracing.before tracing.pass fun _ => tracing.andThen tests fun again => ?_
    split
    · exact tracing.marked nofun tracing.leave
    · exact tracing.pure
  | succ n ih =>
    have weight : (n + 1 + 1) * g + (n + 1) * b = g + (b + ((n + 1) * g + n * b)) := by ring
    rw [weight]
    refine tracing.before tracing.pass fun _ => tracing.bind tests fun again => ?_
    split
    · exact tracing.bind (bodies number) fun _ => ih (number + 1)
    · exact tracing.mono (Nat.zero_le _) tracing.pure

theorem advanceBy (tracing : StatementTracing setting targets rel) {step current : Number} :
    rel blocks 0 (Run.advanceBy step current) (Run.advanceBy step current) := by
  unfold Run.advanceBy
  split
  · exact tracing.pure
  · exact tracing.leave

theorem repeatFor (tracing : StatementTracing setting targets rel) {s : Stmt} {span : Span}
    {last step : Number} {body : Number → Step η Unit} {body' : Nat → Number → Traced.Step η Unit}
    {b : Nat} (bodies : ∀ number current, rel blocks b (body current) (body' number current))
    (n number : Nat) (current : Number) :
    rel blocks (n * b) (Run.repeatFor setting span last step body n current)
      (Traced.repeatFor setting.traced blocks s span last step body' n number current) := by
  induction n generalizing number current with
  | zero =>
    rw [Nat.zero_mul]
    refine tracing.before tracing.pass fun _ => ?_
    split
    · exact tracing.marked nofun tracing.leave
    · exact tracing.pure
  | succ n ih =>
    have weight : (n + 1) * b = b + n * b := by ring
    rw [weight]
    refine tracing.before tracing.pass fun _ => ?_
    split
    · refine tracing.bind (bodies number current) fun _ => ?_
      exact tracing.before tracing.advanceBy fun next => ih (number + 1) next
    · exact tracing.mono (Nat.zero_le _) tracing.pure

theorem loopNumber (tracing : StatementTracing setting targets rel) {span : Span} {label : String}
    {v : Value} : rel blocks 0 (Run.loopNumber span label v) (Run.loopNumber span label v) := by
  cases v with
  | number n => exact tracing.pure
  | _ => exact tracing.leave

/-- A counted loop, once its bounds and its step have values. -/
theorem countedLoop (tracing : StatementTracing setting targets rel) {span : Span}
    {counter : String} {s : Stmt} {inner : Block} {first last step : Value} {body : Step η Unit}
    {body' : Traced.Step η Unit} {b : Nat} (target : targets .bind counter)
    (bodies : rel (inner :: blocks) b body body') :
    rel blocks (setting.maxIterations * b)
      (do
        let first ← Run.loopNumber span "start" first
        let last ← Run.loopNumber span "end" last
        let step ← Run.loopNumber span "step" step
        if step.isZero then Action.fail .zeroStep span
        else
          let each (current : Number) : Step η Unit :=
            Run.inFrame "for-loop" do
              Run.writeVariable span .bind counter (.ofNumber current)
              body
          Run.repeatFor setting span last step each setting.maxIterations first)
      (do
        let first ← Run.loopNumber span "start" first
        let last ← Run.loopNumber span "end" last
        let step ← Run.loopNumber span "step" step
        if step.isZero then Action.fail .zeroStep span
        else
          let each (number : Nat) (current : Number) : Traced.Step η Unit :=
            Run.inFrame "for-loop" do
              Run.writeVariable span .bind counter (.ofNumber current)
              Traced.mark (inner :: blocks) (.iteration number (some (counter, current)))
              body'
          Traced.repeatFor setting.traced blocks s span last step each setting.maxIterations 1
            first) := by
  refine tracing.before tracing.loopNumber fun first => ?_
  refine tracing.before tracing.loopNumber fun last => ?_
  refine tracing.before tracing.loopNumber fun step => ?_
  split
  · exact tracing.mono (Nat.zero_le _) tracing.leave
  · refine tracing.repeatFor (fun number current => tracing.inFrame inner ?_) _ _ _
    exact tracing.before (tracing.writeVariable target) fun _ => tracing.marked nofun bodies

/-! ## Statements -/

mutual

theorem execute (tracing : StatementTracing setting targets rel) (blocks : List Block) :
    ∀ s : Stmt, Changes targets s.walk → rel blocks (s.weight setting.maxIterations)
      (Run.execute setting s) (Traced.execute setting.traced blocks s)
  | .assign span mode name value, changes => by
    refine tracing.andThen ((tracing.expressions blocks).evaluate value) fun v => ?_
    exact tracing.writeVariable (changes _ List.mem_cons_self mode name rfl)
  | .call c, changes =>
    tracing.andThen ((tracing.expressions blocks).evaluateCall c) fun v => tracing.pure
  | .choice _ branches none, changes =>
    tracing.andThen (executeFirst tracing blocks branches changes.tail) fun chosen => tracing.pure
  | .choice _ branches (some last), changes => by
    obtain ⟨first, second⟩ := changes.tail.append
    refine tracing.bind (executeFirst tracing blocks branches first) fun chosen => ?_
    split
    · exact tracing.mono (Nat.zero_le _) tracing.pure
    · exact executeBlock tracing blocks "else" last second
  | .whileLoop span condition (.mk bodySpan statements), changes => by
    obtain ⟨-, inner⟩ := changes.tail.append
    refine tracing.repeatWhile ?_ (fun number => tracing.inFrame (.mk bodySpan statements) ?_) _ _
    · exact tracing.andThen ((tracing.expressions blocks).evaluate condition)
        fun v => tracing.pure
    · exact tracing.marked nofun (executeAll tracing _ statements inner.tail)
  | .forLoop span counter first last none (.mk bodySpan statements), changes => by
    obtain ⟨-, inner⟩ := changes.tail.append
    unfold Stmt.weight Block.weight
    rw [Nat.add_assoc]
    refine tracing.bind ((tracing.expressions blocks).evaluate first) fun first => ?_
    refine tracing.bind ((tracing.expressions blocks).evaluate last) fun last => ?_
    refine tracing.before tracing.pure fun step => ?_
    exact tracing.countedLoop (changes _ List.mem_cons_self _ _ rfl)
      (executeAll tracing _ statements inner.tail)
  | .forLoop span counter first last (some step) (.mk bodySpan statements), changes => by
    obtain ⟨rest, -⟩ := changes.tail.append
    obtain ⟨-, inner⟩ := rest.append
    unfold Stmt.weight Block.weight
    rw [Nat.add_assoc, Nat.add_assoc]
    refine tracing.bind ((tracing.expressions blocks).evaluate first) fun first => ?_
    refine tracing.bind ((tracing.expressions blocks).evaluate last) fun last => ?_
    refine tracing.bind ((tracing.expressions blocks).evaluate step) fun step => ?_
    exact tracing.countedLoop (changes _ List.mem_cons_self _ _ rfl)
      (executeAll tracing _ statements inner.tail)
  | .block body, changes => executeBlock tracing blocks "block" body changes
  | .ret _, _ => tracing.leave
  | .comment _ _, _ => tracing.pure

theorem executeFirst (tracing : StatementTracing setting targets rel) (blocks : List Block) :
    ∀ bs : List Branch, Changes targets (walkBranches bs) →
      rel blocks (branchesWeight setting.maxIterations bs) (Run.executeFirst setting bs)
        (Traced.executeFirst setting.traced blocks bs)
  | [], _ => tracing.pure
  | .mk _ condition body :: bs, changes => by
    obtain ⟨first, others⟩ := changes.tail.append
    obtain ⟨-, inner⟩ := first.append
    unfold branchesWeight
    rw [Nat.add_assoc]
    refine tracing.bind ((tracing.expressions blocks).evaluate condition) fun v => ?_
    show rel _ _ (if setting.truthiness.holds v then _ else _)
      (if setting.truthiness.holds v then _ else _)
    split
    · refine tracing.mono (Nat.le_add_right _ _) ?_
      exact tracing.andThen (executeBlock tracing blocks "if-branch" body inner)
        fun _ => tracing.pure
    · exact tracing.mono (Nat.le_add_left _ _) (executeFirst tracing blocks bs others)

theorem executeBlock (tracing : StatementTracing setting targets rel) (blocks : List Block)
    (name : String) : ∀ b : Block, Changes targets b.walk →
      rel blocks (b.weight setting.maxIterations) (Run.executeBlock setting name b)
        (Traced.executeBlock setting.traced blocks name b)
  | .mk span statements, changes =>
    tracing.inFrame (.mk span statements) (executeAll tracing _ statements changes.tail)

/-- The relation holds of whole trees. -/
theorem executeAll (tracing : StatementTracing setting targets rel) (blocks : List Block) :
    ∀ ss : List Stmt, Changes targets (walkStmts ss) →
      rel blocks (stmtsWeight setting.maxIterations ss) (Run.executeAll setting ss)
        (Traced.executeAll setting.traced blocks ss)
  | [], _ => tracing.pure
  | s :: ss, changes => by
    obtain ⟨first, others⟩ := changes.append
    refine tracing.before tracing.pass fun _ => ?_
    refine tracing.bind (execute tracing blocks s first) fun _ => ?_
    exact executeAll tracing blocks ss others

end

end StatementTracing

end

end Run

end InstallScript
