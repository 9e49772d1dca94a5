import InstallScript.Proofs.Catalog.Checking
import InstallScript.Proofs.Syntax.Kinship

/-!
Relations between the runs of two trees. The meaning of a tree is put together from the meanings of
its parts, so a relation between the steps of two runs that is kept by the ways to put steps
together, and that holds of single steps and of calls, holds of whole trees of one shape
(`Run.Parallel.executeAll`). This is the one induction along the recursion of the definitions: that
of one tree under two hosts is the case of a tree beside itself.
-/

namespace InstallScript

/-! ## Faults of operators -/

/-- Not one of the faults of a call that does not fit its function. -/
def Fault.AsideFromCalls (fault : Fault) : Prop := fault.code ∉ ["E203", "E201", "E202"]

theorem Fault.AsideFromCalls.of_code {fault : Fault} (code : String) (eq : fault.code = code)
    (other : code ∉ ["E203", "E201", "E202"] := by decide) : fault.AsideFromCalls := by
  rwa [Fault.AsideFromCalls, eq]

/-- One of the faults of the language itself: of variables, operands, loops and steps. -/
def Fault.OfLanguage (fault : Fault) : Prop := fault.code ∈ ["E401", "E402", "E403", "E404", "E407"]

theorem Fault.OfLanguage.of_code {fault : Fault} (code : String) (eq : fault.code = code)
    (listed : code ∈ ["E401", "E402", "E403", "E404", "E407"] := by decide) : fault.OfLanguage := by
  rwa [Fault.OfLanguage, eq]

theorem Fault.OfLanguage.aside {fault : Fault} (own : fault.OfLanguage) : fault.AsideFromCalls := by
  have apart : ∀ code ∈ ["E401", "E402", "E403", "E404", "E407"],
      code ∉ ["E203", "E201", "E202"] := by decide
  exact apart fault.code own

theorem arithmetic_fault_code {o : BinaryOperator} {x y : Number} {fault : Fault}
    (trouble : Value.arithmetic o x y = .error (.fault fault)) :
    fault.code = "E402" ∨ fault.code = "E403" := by
  have computed {r : Except Overflow Number} (eq : Value.ofComputed r = .error (.fault fault)) :
      fault.code = "E402" ∨ fault.code = "E403" := by
    cases r <;> cases eq
  unfold Value.arithmetic at trouble
  split at trouble
  case h_4 | h_5 =>
    split at trouble
    · cases trouble
      exact .inr rfl
    · exact computed trouble
  case h_6 =>
    cases trouble
    exact .inl rfl
  all_goals exact computed trouble

/-- What is wrong with the operands of an operator has one of two codes. -/
theorem apply_fault_code {o : BinaryOperator} {a b : Value} {fault : Fault}
    (trouble : Value.apply o a b = .error (.fault fault)) :
    fault.code = "E402" ∨ fault.code = "E403" := by
  unfold Value.apply at trouble
  dsimp only at trouble
  split at trouble
  case h_1 | h_2 | h_5 | h_6 => cases trouble
  case h_9 =>
    split at trouble
    · cases trouble
    · exact arithmetic_fault_code trouble
  case h_10 =>
    split at trouble
    · cases trouble
    · cases trouble
      exact .inl rfl
  case h_11 | h_12 =>
    split at trouble
    · cases trouble
      exact .inl rfl
    · cases trouble
      exact .inl rfl
  all_goals
    cases trouble
    exact .inl rfl

theorem apply_fault {o : BinaryOperator} {a b : Value} {fault : Fault}
    (trouble : Value.apply o a b = .error (.fault fault)) : fault.OfLanguage := by
  rcases apply_fault_code trouble with code | code
  · exact .of_code "E402" code
  · exact .of_code "E403" code

/-- The same setting with another host. -/
def Setting.withHost {η η' : Type} (setting : Setting η) (host : Host η') : Setting η' where
  catalog := setting.catalog
  host := host
  truthiness := setting.truthiness
  maxIterations := setting.maxIterations

/-- Values for the named arguments of a call, under their names. -/
def Call.named (c : Call) (vs : List Value) : List (String × Value) :=
  (c.keywords.map (·.name)).zip vs

theorem Call.mayHave_named {c : Call} {args vs : List Value}
    (positional : List.Forall₂ Expr.MayBe c.arguments args)
    (keywords : List.Forall₂ Expr.MayBe (c.keywords.map (·.value)) vs) :
    c.MayHave args (c.named vs) := by
  refine ⟨positional, ?_⟩
  rw [Call.named]
  clear positional
  generalize c.keywords = ks at keywords ⊢
  induction ks generalizing vs with
  | nil => exact .nil
  | cons k ks ih =>
    cases keywords with
    | cons first others => exact .cons ⟨rfl, first⟩ (ih others)

namespace Run

variable {η η' : Type}

/-- The named arguments of a call are evaluated like those that are given by position. -/
theorem evaluateKeywords_eq (setting : Setting η) (ks : List KeywordArgument) :
    evaluateKeywords setting ks =
      evaluateAll setting (ks.map (·.value)) >>= fun vs => pure ((ks.map (·.name)).zip vs) := by
  induction ks with
  | nil => rfl
  | cons k ks ih =>
    obtain ⟨span, name, e⟩ := k
    rw [evaluateKeywords, ih, List.map_cons, evaluateAll]
    simp only [bind_assoc, pure_bind]
    rfl

theorem evaluateCall_eq (setting : Setting η) (c : Call) {f : FunctionSpec}
    (found : setting.catalog.get? c.name = some f) :
    evaluateCall setting c =
      evaluateAll setting c.arguments >>= fun args =>
        evaluateAll setting (c.keywords.map (·.value)) >>= fun vs =>
          callWith setting f c.span args (c.named vs) := by
  obtain ⟨span, name, arguments, keywords⟩ := c
  have found' : setting.catalog.get? name = some f := found
  rw [evaluateCall, found']
  dsimp only
  simp only [evaluateKeywords_eq, bind_assoc, pure_bind]
  rfl

theorem evaluateCall_of_missing (setting : Setting η) (c : Call)
    (missing : setting.catalog.get? c.name = none) :
    evaluateCall setting c = Action.fail (.unknownFunction c.name) c.span := by
  obtain ⟨span, name, arguments, keywords⟩ := c
  have missing' : setting.catalog.get? name = none := missing
  rw [evaluateCall, missing']
  rfl

/-- A relation between the steps of two runs of trees of one shape. It tells what values a step may
give in both runs, is kept by putting steps together, and holds of the single steps of both; of a
call it holds if the first call's arguments have values that they may have. -/
structure Parallel (k : Kinship) (setting : Setting η) (host : Host η')
    (rel : ∀ {α : Type}, (α → Prop) → Step η α → Step η' α → Prop) : Prop where
  pure : ∀ {α : Type} {P : α → Prop} {a : α}, P a → rel P (Pure.pure a) (Pure.pure a)
  bind : ∀ {α β : Type} {P : α → Prop} {Q : β → Prop} {m : Step η α} {m' : Step η' α}
    {next : α → Step η β} {next' : α → Step η' β}, rel P m m' →
      (∀ a, P a → rel Q (next a) (next' a)) → rel Q (m >>= next) (m' >>= next')
  returned : ∀ {α : Type} {P : α → Prop}, rel P (Action.leave .returned) (Action.leave .returned)
  fail : ∀ {α : Type} {P : α → Prop} {fault : Fault} {span span' : Span}, k.span span span' →
    fault.OfLanguage → rel P (Action.fail fault span) (Action.fail fault span')
  overflow : ∀ {α : Type} {P : α → Prop} {operator : BinaryOperator} {a b : Value}
    {cause : Overflow}, Value.apply operator a b = .error (.overflow cause) →
      rel P (Action.leave (.crashed (.overflow cause))) (Action.leave (.crashed (.overflow cause)))
  checkCancelled : rel (fun _ => True) checkCancelled checkCancelled
  readVariable : ∀ {span : Span} {name : String} {e : Expr}, k.read span name e →
    rel (fun _ => True) (readVariable span name) (evaluate (setting.withHost host) e)
  writeVariable : ∀ {span span' : Span} {mode : AssignMode} {name name' : String} {value : Value},
    k.span span span' → k.target name name' →
      rel (fun _ => True) (writeVariable span mode name value)
        (writeVariable span' mode name' value)
  inFrame : ∀ {α : Type} {P : α → Prop} {name : String} {m : Step η α} {m' : Step η' α},
    rel P m m' → rel P (inFrame name m) (inFrame name m')
  lookup : ∀ {c c' : Call}, k.call c c' →
    setting.catalog.get? c.name = setting.catalog.get? c'.name
  unknown : ∀ {c c' : Call}, k.call c c' → setting.catalog.get? c.name = none →
    rel (α := Value) (fun _ => True) (Action.fail (.unknownFunction c.name) c.span)
      (Action.fail (.unknownFunction c'.name) c'.span)
  call : ∀ {c c' : Call} {f : FunctionSpec} {args vs : List Value}, k.call c c' →
    setting.catalog.get? c.name = some f → c.keywords.length = vs.length →
      c.MayHave args (c.named vs) →
      rel (fun _ => True) (callWith setting f c.span args (c.named vs))
        (callWith (setting.withHost host) f c'.span args (c'.named vs))

namespace Parallel

variable {k : Kinship} {setting : Setting η} {host : Host η'}
  {rel : ∀ {α : Type}, (α → Prop) → Step η α → Step η' α → Prop}

/-! ## Expressions -/

theorem apply (par : Parallel k setting host rel) {span span' : Span} (spans : k.span span span')
    {operator : BinaryOperator} {a b : Value} :
    rel (fun _ => True) (settle span (Value.apply operator a b))
      (settle span' (Value.apply operator a b)) := by
  cases eq : Value.apply operator a b with
  | ok v => exact par.pure trivial
  | error trouble =>
    cases trouble with
    | fault fault => exact par.fail spans (apply_fault eq)
    | overflow cause => exact par.overflow eq

theorem negate (par : Parallel k setting host rel) {span span' : Span} (spans : k.span span span')
    {v : Value} : rel (fun _ => True) (settle span v.negate) (settle span' v.negate) := by
  cases v with
  | number n => exact par.pure trivial
  | _ => exact par.fail spans (.of_code "E402" rfl)

mutual

theorem evaluate (par : Parallel k setting host rel) {e e' : Expr} : e.Kin k e' →
    rel e.MayBe (Run.evaluate setting e) (Run.evaluate (setting.withHost host) e')
  | .literal => par.pure rfl
  | .var read => par.readVariable read
  | .call calls => evaluateCall par calls
  | @Expr.Kin.unary _ _ _ o _ _ spans operand => by
    have inner := evaluate par operand
    cases o with
    | not => exact par.bind inner fun _ _ => par.pure trivial
    | minus => exact par.bind inner fun _ _ => par.negate spans
  | @Expr.Kin.binary _ _ _ o _ _ _ _ spans left right => by
    have first := evaluate par left
    have second := evaluate par right
    cases o with
    | and =>
      refine par.bind first fun v _ => ?_
      show rel _ (if setting.truthiness.holds v then _ else _)
        (if setting.truthiness.holds v then _ else _)
      split
      · exact par.bind second fun _ _ => par.pure trivial
      · exact par.pure trivial
    | or =>
      refine par.bind first fun v _ => ?_
      show rel _ (if setting.truthiness.holds v then _ else _)
        (if setting.truthiness.holds v then _ else _)
      split
      · exact par.pure trivial
      · exact par.bind second fun _ _ => par.pure trivial
    | _ => exact par.bind first fun _ _ => par.bind second fun _ _ => par.apply spans

theorem evaluateCall (par : Parallel k setting host rel) {c c' : Call} : c.Kin k c' →
    rel (fun _ => True) (Run.evaluateCall setting c) (Run.evaluateCall (setting.withHost host) c')
  | .mk heads arguments keywords => by
    have lookup := par.lookup heads
    cases found : setting.catalog.get? _ with
    | none =>
      have found' : (setting.withHost host).catalog.get? _ = none := lookup.symm.trans found
      rw [evaluateCall_of_missing setting _ found, evaluateCall_of_missing _ _ found']
      exact par.unknown heads found
    | some f =>
      have found' : (setting.withHost host).catalog.get? _ = some f := lookup.symm.trans found
      rw [evaluateCall_eq setting _ found, evaluateCall_eq _ _ found']
      refine par.bind (evaluateAll par arguments) fun args mayArgs => ?_
      refine par.bind (evaluateAll par keywords) fun vs mayNamed => ?_
      have lengths := List.length_map _ ▸ mayNamed.length_eq
      exact par.call heads found lengths (Call.mayHave_named mayArgs mayNamed)

theorem evaluateAll (par : Parallel k setting host rel) {es es' : List Expr} : ExprsKin k es es' →
    rel (fun vs => List.Forall₂ Expr.MayBe es vs) (Run.evaluateAll setting es)
      (Run.evaluateAll (setting.withHost host) es')
  | .nil => par.pure .nil
  | .cons first others => by
    refine par.bind (evaluate par first) fun v may => ?_
    exact par.bind (evaluateAll par others) fun vs mayAll => par.pure (.cons may mayAll)

end

/-! ## Loops -/

theorem repeatWhile (par : Parallel k setting host rel) {span span' : Span}
    (spans : k.span span span') {test : Step η Bool} {test' : Step η' Bool} {body : Step η Unit}
    {body' : Step η' Unit} (tests : rel (fun _ => True) test test')
    (bodies : rel (fun _ => True) body body') (n : Nat) :
    rel (fun _ => True) (Run.repeatWhile setting span test body n)
      (Run.repeatWhile (setting.withHost host) span' test' body' n) := by
  induction n with
  | zero =>
    refine par.bind par.checkCancelled fun _ _ => par.bind tests fun again _ => ?_
    split
    · exact par.fail spans (.of_code "E404" rfl)
    · exact par.pure trivial
  | succ n ih =>
    refine par.bind par.checkCancelled fun _ _ => par.bind tests fun again _ => ?_
    split
    · exact par.bind bodies fun _ _ => ih
    · exact par.pure trivial

/-- The step of a counted loop is an addition. -/
theorem advanceBy (par : Parallel k setting host rel) {step current : Number} :
    rel (fun _ => True) (Run.advanceBy step current) (Run.advanceBy step current) := by
  unfold Run.advanceBy
  split
  · exact par.pure trivial
  · rename_i cause eq
    have overflows : Value.apply .plus (.number current) (.number step) =
        .error (.overflow cause) := by
      show Value.ofComputed (current.add step) = _
      rw [eq]
      rfl
    exact par.overflow overflows

theorem repeatFor (par : Parallel k setting host rel) {span span' : Span}
    (spans : k.span span span') {last step : Number} {body : Number → Step η Unit}
    {body' : Number → Step η' Unit}
    (bodies : ∀ current, rel (fun _ => True) (body current) (body' current)) (n : Nat)
    (current : Number) :
    rel (fun _ => True) (Run.repeatFor setting span last step body n current)
      (Run.repeatFor (setting.withHost host) span' last step body' n current) := by
  induction n generalizing current with
  | zero =>
    refine par.bind par.checkCancelled fun _ _ => ?_
    split
    · exact par.fail spans (.of_code "E404" rfl)
    · exact par.pure trivial
  | succ n ih =>
    refine par.bind par.checkCancelled fun _ _ => ?_
    split
    · refine par.bind (bodies current) fun _ _ => ?_
      exact par.bind par.advanceBy fun next _ => ih next
    · exact par.pure trivial

theorem loopNumber (par : Parallel k setting host rel) {span span' : Span}
    (spans : k.span span span') {label : String} {v : Value} :
    rel (fun _ => True) (Run.loopNumber span label v) (Run.loopNumber span' label v) := by
  cases v with
  | number n => exact par.pure trivial
  | _ => exact par.fail spans (.of_code "E402" rfl)

/-- A counted loop, once its bounds and its step have values. -/
theorem countedLoop (par : Parallel k setting host rel) {span span' : Span}
    (spans : k.span span span') {counter counter' : String} (counters : k.target counter counter')
    {first last step : Value} {body : Step η Unit} {body' : Step η' Unit}
    (bodies : rel (fun _ => True) body body') :
    rel (fun _ => True)
      (do
        let first ← Run.loopNumber span "start" first
        let last ← Run.loopNumber span "end" last
        let step ← Run.loopNumber span "step" step
        if step.isZero then Action.fail .zeroStep span
        else
          let each (current : Number) : Step η Unit :=
            Run.inFrame "for-loop" do
              Run.writeVariable span .bind counter (.ofNumber current)
              body
          Run.repeatFor setting span last step each setting.maxIterations first)
      (do
        let first ← Run.loopNumber span' "start" first
        let last ← Run.loopNumber span' "end" last
        let step ← Run.loopNumber span' "step" step
        if step.isZero then Action.fail .zeroStep span'
        else
          let each (current : Number) : Step η' Unit :=
            Run.inFrame "for-loop" do
              Run.writeVariable span' .bind counter' (.ofNumber current)
              body'
          Run.repeatFor (setting.withHost host) span' last step each setting.maxIterations
            first) := by
  refine par.bind (par.loopNumber spans) fun first _ => ?_
  refine par.bind (par.loopNumber spans) fun last _ => ?_
  refine par.bind (par.loopNumber spans) fun step _ => ?_
  split
  · exact par.fail spans (.of_code "E407" rfl)
  · refine par.repeatFor spans (fun current => par.inFrame ?_) _ _
    exact par.bind (par.writeVariable spans counters) fun _ _ => bodies

/-! ## Statements -/

mutual

theorem execute (par : Parallel k setting host rel) {s s' : Stmt} : s.Kin k s' →
    rel (fun _ => True) (Run.execute setting s) (Run.execute (setting.withHost host) s')
  | .assign spans targets value =>
    par.bind (par.evaluate value) fun _ _ => par.writeVariable spans targets
  | .call calls => par.bind (par.evaluateCall calls) fun _ _ => par.pure trivial
  | .choice branches => par.bind (executeFirst par branches) fun _ _ => par.pure trivial
  | .choiceElse branches otherwise => by
    refine par.bind (executeFirst par branches) fun chosen _ => ?_
    split
    · exact par.pure trivial
    · exact executeBlock par "else" otherwise
  | .whileLoop spans condition body =>
    par.repeatWhile spans (par.bind (par.evaluate condition) fun _ _ => par.pure trivial)
      (executeBlock par "while-loop" body) _
  | .forLoop spans counters first last (.mk statements) => by
    refine par.bind (par.evaluate first) fun start _ => ?_
    refine par.bind (par.evaluate last) fun stop _ => ?_
    refine par.bind (P := fun _ => True) (par.pure trivial) fun step _ => ?_
    exact par.countedLoop spans counters (executeAll par statements)
  | .forLoopStep spans counters first last step (.mk statements) => by
    refine par.bind (par.evaluate first) fun start _ => ?_
    refine par.bind (par.evaluate last) fun stop _ => ?_
    refine par.bind (par.evaluate step) fun step _ => ?_
    exact par.countedLoop spans counters (executeAll par statements)
  | .block body => executeBlock par "block" body
  | .ret => par.returned
  | .comment => par.pure trivial

theorem executeFirst (par : Parallel k setting host rel) {bs bs' : List Branch} :
    BranchesKin k bs bs' → rel (fun _ => True) (Run.executeFirst setting bs)
      (Run.executeFirst (setting.withHost host) bs')
  | .nil => par.pure trivial
  | .cons condition body others => by
    refine par.bind (par.evaluate condition) fun v _ => ?_
    show rel _ (if setting.truthiness.holds v then _ else _)
      (if setting.truthiness.holds v then _ else _)
    split
    · exact par.bind (executeBlock par "if-branch" body) fun _ _ => par.pure trivial
    · exact executeFirst par others

theorem executeBlock (par : Parallel k setting host rel) (name : String) {b b' : Block} :
    b.Kin k b' → rel (fun _ => True) (Run.executeBlock setting name b)
      (Run.executeBlock (setting.withHost host) name b')
  | .mk statements => par.inFrame (executeAll par statements)

/-- The relation holds of whole trees. -/
theorem executeAll (par : Parallel k setting host rel) {ss ss' : List Stmt} : StmtsKin k ss ss' →
    rel (fun _ => True) (Run.executeAll setting ss) (Run.executeAll (setting.withHost host) ss')
  | .nil => par.pure trivial
  | .cons first others => by
    refine par.bind par.checkCancelled fun _ _ => ?_
    refine par.bind (execute par first) fun _ _ => ?_
    exact executeAll par others

end

end Parallel

end Run

end InstallScript
