import InstallScript.Proofs.Run.Chronicle
import InstallScript.Proofs.Run.History
import InstallScript.Proofs.Run.Variables

/-!
The traces of whole scripts. The contract of runs with a trace is kept by statements, along the
recursion of the definitions (`Traced.executeAll_meets`): a loop runs its body in a frame that has
just been opened and counts as it does so, and what is started last, when nothing ends a statement
early, is the last statement in it. A session that keeps a trace keeps the contract over its history
(`Session.traced_upholds`).
-/

namespace InstallScript

variable {η : Type}

/-- A statement has been run to its end. -/
structure After (script : Block) (base limit : Nat) (counts : Nat → Nat) (blocks : List Block)
    (s : Stmt) (w : World (η × List Event)) : Prop
    extends Kept script base limit counts blocks w where
  last : ∃ t, statementOf w.host.2 = some t ∧ t.LastOf s

theorem Through.cons {s t : Stmt} {ss : List Stmt} {trace : List Event} (last : t.LastOf s)
    (through : Through ss (some t) trace) (prior : Option Stmt) : Through (s :: ss) prior trace := by
  unfold Through at through ⊢
  cases ss with
  | nil => exact ⟨t, through, last⟩
  | cons s' ss =>
    rw [List.getLast?_cons_cons]
    exact through

section

variable {script : Block} {base limit : Nat} {counts : Nat → Nat} {blocks : List Block} {s : Stmt}
  {body : Block} {calls : List Call} {number : Nat} {w v : World (η × List Event)}

theorem During.after (during : During script base limit counts blocks s calls number w) :
    After script base limit counts blocks s w :=
  ⟨during.toKept, s, during.statement, .refl s⟩

/-- Behind the mark of its start a statement is in progress. -/
theorem Kept.begin (kept : Kept script base limit counts blocks
      (w.marked blocks (.boundary (.statement s))))
    (member : s ∈ (blocks.headD script).statements) :
    During script base limit counts blocks s s.ownCalls 0
      (w.marked blocks (.boundary (.statement s))) :=
  ⟨kept, member, rfl, List.Sublist.refl _, if_pos rfl, not_entered_of_other nofun⟩

/-- Behind the mark of a round a loop is in progress. -/
theorem Kept.round (kept : Kept script base limit counts blocks
      (w.marked blocks (.boundary (.round s))))
    (member : s ∈ (blocks.headD script).statements)
    (iterations : iterationsSince blocks.length w.host.2 = number) :
    During script base limit counts blocks s s.ownCalls number
      (w.marked blocks (.boundary (.round s))) :=
  ⟨kept, member, rfl, List.Sublist.refl _, iterations, not_entered_of_other nofun⟩

/-- Inside a body. -/
theorem Chronicled.enter (chronicled : Chronicled script base limit counts blocks w)
    (member : s ∈ (blocks.headD script).statements) (inner : body ∈ s.bodies) :
    Chronicled script base limit (fun k => iterationsSince k w.host.2) (body :: blocks) w :=
  ⟨.cons chronicled.encloses member inner, chronicled.orderly, chronicled.goesOn,
    chronicled.lasts, fun _ _ => rfl⟩

/-- Behind a body whose frame has been closed. -/
theorem Kept.exit {counts' : Nat → Nat}
    (kept : Kept script base limit counts' (body :: blocks) v)
    (encloses : script.Encloses blocks) (same : ∀ k < blocks.length, counts' k = counts k) :
    Kept script base limit counts blocks (v.mapScopes (·.pop)) where
  encloses := encloses
  orderly := kept.orderly
  goesOn := kept.goesOn
  lasts := kept.lasts
  counts k less := (kept.counts k (Nat.lt_succ_of_lt less)).trans (same k less)
  depth := by
    show v.context.scopes.pop.depth = base + blocks.length
    rw [Scopes.depth_pop, kept.depth]
    rfl

end

namespace Traced

section

variable {script : Block} {base limit : Nat} {told : Exit → Prop} {counts : Nat → Nat}
  {blocks : List Block} {s : Stmt} {body : Block} {calls : List Call} {number : Nat} {α : Type}
  {w v : World (η × List Event)}

/-! ## Frames -/

/-- A body in its frame, which is closed at the end. -/
theorem atEnd_meets {c : Course (World (η × List Event)) α} {depth : Nat}
    {post post' : α → World (η × List Event) → Prop}
    (meets : c.Meets (chronicle η script base limit told (depth + 1)) post)
    (closes : ∀ a u, post a u → post' a (u.mapScopes (·.pop))) :
    (c.atEnd (·.mapScopes (·.pop))).Meets (chronicle η script base limit told depth) post' := by
  refine meets.atEnd (fun _ _ => id) (fun _ _ _ => id) (fun why u ended => ?_) closes
  refine ⟨?_, ended.orderly, ended.ending⟩
  show u.context.scopes.pop.depth = depth
  rw [Scopes.depth_pop, ended.depth]
  rfl

/-- Runs a body once more, in a frame that holds nothing but the variable of the loop. -/
theorem iteration_meets {repeated : Step η Unit} {counter : Option (String × Number)} {name : String}
    (during : During script base limit counts blocks s calls number w) (less : number < limit)
    (repeats : s.Repeats body (counter.map Prod.fst))
    (trace : v.host.2 = w.host.2) (lasts : v.cancelled = none → w.cancelled = none)
    (counted : counter.isSome = true → v.cancelled = none)
    (depth : v.context.scopes.depth = base + blocks.length + 1)
    (frame : v.context.scopes.frames.head? =
      some ⟨name, (counter.map fun c => (v.context.scopes.key c.1, Value.ofNumber c.2)).toList⟩)
    (inner : ∀ counts', Action.Meets
      (chronicle η script base limit told (base + (body :: blocks).length))
      (Kept script base limit counts' (body :: blocks)) repeated
      fun _ => Kept script base limit counts' (body :: blocks)) :
    (((do
      mark (body :: blocks) (.iteration (number + 1) counter)
      repeated : Step η Unit) v).atEnd (·.mapScopes (·.pop))).Meets
        (chronicle η script base limit told (base + blocks.length))
        fun _ u => Kept script base limit counts blocks u ∧
          iterationsSince blocks.length u.host.2 = number + 1 := by
  have encloses : script.Encloses (body :: blocks) :=
    .cons during.encloses during.member repeats.mem_bodies
  have chronicled := during.toChronicled.of_eq trace lasts
  have iterations : number + 1 = iterationsSince blocks.length v.host.2 + 1 := by
    rw [trace, during.iterations]
  have notEntered : ¬ Entered v.host.2 := by
    rw [trace]
    exact during.notEntered
  have belongs : (v.event (body :: blocks) (.iteration (number + 1) counter)).Belongs script limit
      v.host.2 :=
    ⟨body, blocks, s, name, rfl, trace ▸ during.statement, repeats, iterations, less, counted, frame⟩
  have follows := chronicled.follows encloses depth (fun entered => absurd entered notEntered)
    belongs
  have marked := chronicled.marked follows nofun (Nat.le_succ _) fun _ _ _ => Nat.lt_succ_self _
  have entered := marked.enter during.member repeats.mem_bodies
  refine atEnd_meets (inner _ _ ⟨entered, depth⟩) fun _ u kept => ?_
  have counts' : iterationsSince blocks.length u.host.2 = number + 1 := by
    refine (kept.counts blocks.length (Nat.lt_succ_self _)).trans ?_
    exact (if_pos rfl).trans iterations.symm
  exact ⟨kept.exit during.encloses marked.counts, counts'⟩

/-! ## Boundaries -/

theorem begin_meets {pre : World (η × List Event) → Prop}
    (keeps : ∀ w, pre w → Kept script base limit counts blocks w)
    (member : s ∈ (blocks.headD script).statements) :
    Action.Meets (chronicle η script base limit told (base + blocks.length)) pre
      (pass blocks (.statement s)) fun _ => During script base limit counts blocks s s.ownCalls 0 := by
  intro w before
  refine pass_meets (keeps w before) ?_ fun kept _ => kept.begin member
  exact member

/-- A loop in some block bodies has run its body so often. -/
abbrev Looped (script : Block) (base limit : Nat) (counts : Nat → Nat) (blocks : List Block)
    (number : Nat) (w : World (η × List Event)) : Prop :=
  Kept script base limit counts blocks w ∧ iterationsSince blocks.length w.host.2 = number

theorem round_meets (member : s ∈ (blocks.headD script).statements) :
    Action.Meets (chronicle η script base limit told (base + blocks.length))
      (Looped script base limit counts blocks number) (pass blocks (.round s))
      fun _ w => During script base limit counts blocks s s.ownCalls number w ∧
        w.cancelled = none := by
  rintro w ⟨kept, iterations⟩
  refine pass_meets kept ?_ fun kept open' => ⟨kept.round member iterations, open'⟩
  exact member

/-! ## Loops -/

/-- A loop that would have to run its body once more than it may fails. -/
theorem excess_meets {counter : Option String} (repeats : s.Repeats body counter) {fault : Fault}
    {span : Span} {post : Unit → World (η × List Event) → Prop} :
    Action.Meets (chronicle η script base limit told (base + blocks.length))
      (During script base limit counts blocks s calls limit)
      (do
        mark blocks (.excess (limit + 1))
        Action.fail fault span) post := by
  intro w during
  have belongs : (w.event blocks (.excess (limit + 1))).Belongs script limit w.host.2 := by
    refine ⟨s, body, counter, during.statement, repeats, rfl, ?_⟩
    show limit + 1 = iterationsSince blocks.length w.host.2 + 1
    rw [during.iterations]
  exact (during.toKept.marked (fun entered => absurd entered during.notEntered) belongs nofun
    nofun).ended (.exceeded rfl rfl)

theorem repeatWhile_meets (setting : Setting η) {span : Span} {test : Step η Bool}
    {each : Nat → Step η Unit} (member : s ∈ (blocks.headD script).statements)
    {counter : Option String} (repeats : s.Repeats body counter)
    (tests : Consumes script base limit told blocks s.ownCalls test)
    (bodies : ∀ number < limit, Action.Meets
      (chronicle η script base limit told (base + blocks.length))
      (During script base limit counts blocks s [] number) (each (number + 1))
      fun _ => Looped script base limit counts blocks (number + 1))
    (n number : Nat) (left : number + n = limit) :
    Action.Meets (chronicle η script base limit told (base + blocks.length))
      (Looped script base limit counts blocks number)
      (repeatWhile setting.traced blocks s span test each n (number + 1))
      fun _ => After script base limit counts blocks s := by
  induction n generalizing number with
  | zero =>
    obtain rfl : number = limit := left
    refine (round_meets member).bind fun _ => (tests.all.weaken fun _ => And.left).bind
      fun again => ?_
    split
    · exact excess_meets repeats
    · exact .pure fun w during => during.after
  | succ n ih =>
    have less : number < limit := by omega
    refine (round_meets member).bind fun _ => (tests.all.weaken fun _ => And.left).bind
      fun again => ?_
    split
    · exact (bodies number less).bind fun _ => ih (number + 1) (by omega)
    · exact .pure fun w during => during.after

theorem repeatFor_meets (setting : Setting η) {span : Span} {last step : Number}
    {each : Nat → Number → Step η Unit} (member : s ∈ (blocks.headD script).statements)
    {counter : Option String} (repeats : s.Repeats body counter)
    (bodies : ∀ number < limit, ∀ current, Action.Meets
      (chronicle η script base limit told (base + blocks.length))
      (fun w => During script base limit counts blocks s s.ownCalls number w ∧ w.cancelled = none)
      (each (number + 1) current)
      fun _ => Looped script base limit counts blocks (number + 1))
    (n number : Nat) (left : number + n = limit) (current : Number) :
    Action.Meets (chronicle η script base limit told (base + blocks.length))
      (Looped script base limit counts blocks number)
      (repeatFor setting.traced blocks s span last step each n (number + 1) current)
      fun _ => After script base limit counts blocks s := by
  induction n generalizing number current with
  | zero =>
    obtain rfl : number = limit := left
    refine (round_meets member).bind fun _ => ?_
    split
    · exact (excess_meets repeats).weaken fun _ => And.left
    · exact .pure fun w both => both.1.after
  | succ n ih =>
    have less : number < limit := by omega
    refine (round_meets member).bind fun _ => ?_
    split
    · refine (bodies number less current).bind fun _ => ?_
      have advances : Action.Meets (chronicle η script base limit told (base + blocks.length))
          (Looped script base limit counts blocks (number + 1))
          (Run.advanceBy step current : Step η Number)
          fun _ => Looped script base limit counts blocks (number + 1) := by
        unfold Run.advanceBy
        split
        · exact .pure fun w looped => looped
        · exact .leave fun w looped => looped.1.ended .crashed
      exact advances.bind fun next => ih (number + 1) (by omega) next
    · exact .pure fun w both => both.1.after

theorem loopNumber_consumes {span : Span} {label : String} {v : Value} :
    Consumes script base limit told blocks []
      (Run.loopNumber span label v : Step η Number) := by
  cases v with
  | number n => exact .pure
  | _ => exact .fail (by simp [Fault.code])

/-! ## Assignments -/

theorem writeVariable_meets {span : Span} {mode : AssignMode} {name : String} {value : Value} :
    Action.Meets (chronicle η script base limit told (base + blocks.length))
      (During script base limit counts blocks s calls number)
      (Run.writeVariable span mode name value)
      fun _ => After script base limit counts blocks s := by
  intro w during
  have changes (scopes : Scopes) (depth : scopes.depth = w.context.scopes.depth) :
      After script base limit counts blocks s (w.mapScopes fun _ => scopes) :=
    ⟨⟨during.toChronicled.of_eq rfl id, depth.trans during.depth⟩, s, during.statement, .refl s⟩
  unfold Run.writeVariable
  split
  · exact changes _ (Scopes.depth_bind _ _ _)
  · split
    · rename_i updates
      exact changes _ (Scopes.changed_of_update? updates).depth
    · refine during.toKept.ended (.failed ?_)
      simp [Fault.code]

/-! ## Statements -/

/-- A counted loop, once its bounds and its step have values. -/
theorem countedLoop_meets (setting : Setting η) {span : Span} {counter : String}
    {first last : Expr} {step : Option Expr} {start stop increment : Value} {body' : Step η Unit}
    (member : Stmt.forLoop span counter first last step body ∈ (blocks.headD script).statements)
    (inner : ∀ counts', Action.Meets
      (chronicle η script base setting.maxIterations told (base + (body :: blocks).length))
      (Kept script base setting.maxIterations counts' (body :: blocks)) body'
      fun _ => Kept script base setting.maxIterations counts' (body :: blocks)) :
    Action.Meets (chronicle η script base setting.maxIterations told (base + blocks.length))
      (During script base setting.maxIterations counts blocks
        (.forLoop span counter first last step body) [] 0)
      (do
        let first' ← Run.loopNumber span "start" start
        let last' ← Run.loopNumber span "end" stop
        let step' ← Run.loopNumber span "step" increment
        if step'.isZero then Action.fail .zeroStep span
        else
          let each (number : Nat) (current : Number) : Step η Unit :=
            Run.inFrame "for-loop" do
              Run.writeVariable span .bind counter (.ofNumber current)
              mark (body :: blocks) (.iteration number (some (counter, current)))
              body'
          repeatFor setting.traced blocks (.forLoop span counter first last step body) span last'
            step' each setting.maxIterations 1 first')
      fun _ => After script base setting.maxIterations counts blocks
        (.forLoop span counter first last step body) := by
  refine loopNumber_consumes.all.bind fun start => loopNumber_consumes.all.bind fun stop => ?_
  refine loopNumber_consumes.all.bind fun increment => ?_
  split
  · refine .leave fun w during => during.toKept.ended (.failed ?_)
    simp [Fault.code]
  · intro w during
    refine repeatFor_meets setting member .forLoop (fun number less current => ?_)
      setting.maxIterations 0 (Nat.zero_add _) start w ⟨during.toKept, during.iterations⟩
    rintro w ⟨during, open'⟩
    exact iteration_meets during less .forLoop rfl id (fun _ => open')
      (congrArg (· + 1) during.depth) rfl inner

/-- Behind a body that a statement runs once and that is all it has left to do. -/
theorem after_of_through (kept : Kept script base limit counts blocks w)
    (through : Through body.statements (some s) w.host.2)
    (inner : ∀ t u : Stmt, body.statements.getLast? = some t → u.LastOf t → u.LastOf s) :
    After script base limit counts blocks s w := by
  refine ⟨kept, ?_⟩
  unfold Through at through
  cases last : body.statements.getLast? with
  | none =>
    rw [last] at through
    exact ⟨s, through, .refl s⟩
  | some t =>
    rw [last] at through
    obtain ⟨u, statement, within⟩ := through
    exact ⟨u, statement, inner t u last within⟩

mutual

theorem execute_meets (setting : Setting η) (script : Block) (base : Nat) (told : Exit → Prop) :
    ∀ (s : Stmt) (counts : Nat → Nat) (blocks : List Block),
      s ∈ (blocks.headD script).statements →
        Action.Meets (chronicle η script base setting.maxIterations told (base + blocks.length))
          (During script base setting.maxIterations counts blocks s s.ownCalls 0)
          (execute setting.traced blocks s)
          fun _ => After script base setting.maxIterations counts blocks s
  | .assign span mode name value, counts, blocks, _ =>
    ((consumes_tracing setting _ _ _ _ blocks).evaluate value).all.bind fun _ =>
      writeVariable_meets
  | .call c, counts, blocks, _ =>
    ((consumes_tracing setting _ _ _ _ blocks).evaluateCall c).all.bind fun _ =>
      .pure fun _ during => during.after
  | .choice span branches none, counts, blocks, member => by
    refine (executeFirst_meets setting script base told branches counts blocks member
      fun b inner => ?_).bind fun chosen => ?_
    · exact List.mem_append_left _ (List.mem_map_of_mem inner)
    · cases chosen with
      | true => exact .pure fun w after => after
      | false => exact .pure fun w during => during.after
  | .choice span branches (some otherwise), counts, blocks, member => by
    have last : otherwise ∈ (Stmt.choice span branches (some otherwise)).bodies :=
      List.mem_append_right _ List.mem_cons_self
    refine (executeFirst_meets setting script base told branches counts blocks member
      fun b inner => ?_).bind fun chosen => ?_
    · exact List.mem_append_left _ (List.mem_map_of_mem inner)
    · cases chosen with
      | true => exact .pure fun w after => after
      | false =>
        intro w during
        refine (executeBlock_meets setting script base told otherwise "else" counts blocks _ _ member
          last w ⟨during.toKept, during.statement⟩).imp fun _ u both => ?_
        exact after_of_through both.1 both.2 fun _ _ => .choice last
  | .whileLoop span condition (.mk bodySpan statements), counts, blocks, member => by
    intro w during
    refine repeatWhile_meets setting member .whileLoop ?_ (fun number less => ?_)
      setting.maxIterations 0 (Nat.zero_add _) w ⟨during.toKept, during.iterations⟩
    · exact ((consumes_tracing setting _ _ _ _ blocks).evaluate condition).andThen fun _ => .pure
    · intro w during
      refine iteration_meets during less .whileLoop rfl id nofun (congrArg (· + 1) during.depth) rfl
        fun counts' v kept => ?_
      exact (executeAll_meets setting script base told statements counts' (.mk bodySpan statements
        :: blocks) (statementOf v.host.2) (fun _ => id) v ⟨kept, rfl⟩).imp fun _ _ both => both.1
  | .forLoop span counter first last step (.mk bodySpan statements), counts, blocks, member => by
    have inner (counts' : Nat → Nat) : Action.Meets
        (chronicle η script base setting.maxIterations told
          (base + (Block.mk bodySpan statements :: blocks).length))
        (Kept script base setting.maxIterations counts' (.mk bodySpan statements :: blocks))
        (executeAll setting.traced (.mk bodySpan statements :: blocks) statements)
        fun _ => Kept script base setting.maxIterations counts' (.mk bodySpan statements :: blocks) :=
      fun v kept => (executeAll_meets setting script base told statements counts' (.mk bodySpan
        statements :: blocks) (statementOf v.host.2) (fun _ => id) v ⟨kept, rfl⟩).imp
        fun _ _ both => both.1
    have tracing := consumes_tracing setting script base setting.maxIterations told blocks
    refine (tracing.evaluate first counts _ _ 0).bind fun start => ?_
    refine (tracing.evaluate last counts _ _ 0).bind fun stop => ?_
    cases step with
    | some step =>
      exact (tracing.evaluate step).all.bind fun increment =>
        countedLoop_meets setting member inner
    | none =>
      have pure : Consumes script base setting.maxIterations told blocks []
          (Action.pure (.ofInt 1) : Step η Value) := .pure
      exact pure.all.bind fun increment => countedLoop_meets setting member inner
  | .block body, counts, blocks, member => by
    intro w during
    refine (executeBlock_meets setting script base told body "block" counts blocks _ _ member
      List.mem_cons_self w ⟨during.toKept, during.statement⟩).imp fun _ u both => ?_
    exact after_of_through both.1 both.2 fun _ _ => .block
  | .ret span, counts, blocks, _ =>
    .leave fun _ during => during.toKept.ended (.returned during.statement)
  | .comment _ _, counts, blocks, _ => .pure fun _ during => during.after

/-- A choice whose guards are looked at one after another. -/
theorem executeFirst_meets (setting : Setting η) (script : Block) (base : Nat)
    (told : Exit → Prop) {span : Span} {branches : List Branch} {otherwise : Option Block} :
    ∀ (bs : List Branch) (counts : Nat → Nat) (blocks : List Block),
      Stmt.choice span branches otherwise ∈ (blocks.headD script).statements →
        (∀ b ∈ bs, b.body ∈ (Stmt.choice span branches otherwise).bodies) →
          Action.Meets (chronicle η script base setting.maxIterations told (base + blocks.length))
            (During script base setting.maxIterations counts blocks
              (.choice span branches otherwise) (callsOfGuards bs) 0)
            (executeFirst setting.traced blocks bs)
            fun chosen => match chosen with
              | true => After script base setting.maxIterations counts blocks
                (.choice span branches otherwise)
              | false => During script base setting.maxIterations counts blocks
                (.choice span branches otherwise) [] 0
  | [], counts, blocks, _, _ => .pure fun _ during => during
  | .mk _ condition body :: bs, counts, blocks, member, inner => by
    obtain ⟨first, others⟩ := List.forall_mem_cons.1 inner
    refine ((consumes_tracing setting _ _ _ _ blocks).evaluate condition counts _ _ 0).bind
      fun v => ?_
    split
    · intro w during
      refine Course.Meets.andThen (executeBlock_meets setting script base told body "if-branch" counts
        blocks _ _ member first w ⟨during.toKept, during.statement⟩) fun _ u both => ?_
      exact after_of_through both.1 both.2 fun _ _ => .choice first
    · exact executeFirst_meets setting script base told bs counts blocks member others

theorem executeBlock_meets (setting : Setting η) (script : Block) (base : Nat)
    (told : Exit → Prop) : ∀ (b : Block) (name : String) (counts : Nat → Nat) (blocks : List Block)
      (prior : Option Stmt) (s : Stmt), s ∈ (blocks.headD script).statements → b ∈ s.bodies →
        Action.Meets (chronicle η script base setting.maxIterations told (base + blocks.length))
          (fun w => Kept script base setting.maxIterations counts blocks w ∧
            statementOf w.host.2 = prior)
          (executeBlock setting.traced blocks name b)
          fun _ w => Kept script base setting.maxIterations counts blocks w ∧
            Through b.statements prior w.host.2
  | .mk span statements, name, counts, blocks, prior, s, member, inner => by
    rintro w ⟨kept, statement⟩
    have entered : Kept script base setting.maxIterations (fun k => iterationsSince k w.host.2)
        (.mk span statements :: blocks) (w.mapScopes (·.push name)) :=
      ⟨(kept.toChronicled.enter member inner).of_eq rfl id, congrArg (· + 1) kept.depth⟩
    refine atEnd_meets (executeAll_meets setting script base told statements _ _ prior (fun _ => id)
      _ ⟨entered, statement⟩) fun _ u both => ?_
    exact ⟨both.1.exit kept.encloses kept.counts, both.2⟩

/-- The statements of a script keep the contract. -/
theorem executeAll_meets (setting : Setting η) (script : Block) (base : Nat)
    (told : Exit → Prop) : ∀ (ss : List Stmt) (counts : Nat → Nat) (blocks : List Block)
      (prior : Option Stmt), (∀ s ∈ ss, s ∈ (blocks.headD script).statements) →
        Action.Meets (chronicle η script base setting.maxIterations told (base + blocks.length))
          (fun w => Kept script base setting.maxIterations counts blocks w ∧
            statementOf w.host.2 = prior)
          (executeAll setting.traced blocks ss)
          fun _ w => Kept script base setting.maxIterations counts blocks w ∧
            Through ss prior w.host.2
  | [], counts, blocks, prior, _ => .pure fun _ both => both
  | s :: ss, counts, blocks, prior, members => by
    obtain ⟨member, others⟩ := List.forall_mem_cons.1 members
    refine (begin_meets (fun w both => both.1) member).bind fun _ => ?_
    refine (execute_meets setting script base told s counts blocks member).bind fun _ => ?_
    rintro w ⟨kept, t, statement, last⟩
    refine (executeAll_meets setting script base told ss counts blocks (some t) others w
      ⟨kept, statement⟩).imp fun _ u both => ?_
    exact ⟨both.1, both.2.cons last prior⟩

end

end

end Traced

/-! ## Sessions -/

/-- The ways in which moves tell a waiting run to end. -/
def Session.ToldBy (moves : List Session.Move) (why : Exit) : Prop :=
  ∃ m ∈ moves, m.told? = some (.leave why) ∨
    m.told? = some (.reply .abort) ∧ why = .aborted cancelledByUser

theorem Session.not_toldBy_returned (moves : List Session.Move) : ¬ ToldBy moves .returned := by
  rintro ⟨m, -, told | ⟨-, eq⟩⟩
  · cases m <;> cases told
  · cases eq

/-- The result shows how the run has ended. -/
def RunResult.Shows (result : RunResult) : Exit → Prop
  | .returned => result.status = .success ∧ result.error = none ∧ result.abortReason = none
  | .aborted reason =>
    result.status = .aborted ∧ result.error = none ∧ result.abortReason = some reason
  | .failed e => result.status = .failed ∧ (∃ d, result.error = some d ∧ d.code = e.fault.code) ∧
    result.abortReason = none
  | .crashed _ => False

theorem RunResult.shows_of_exit {before result : RunResult} {w : World η} {why : Exit}
    {warnings : List Diagnostic} (results : Session.resultOfExit w why = .ok before)
    (same : result = { before with warnings }) : result.Shows why := by
  subst same
  cases why with
  | returned | aborted =>
    cases results
    exact ⟨rfl, rfl, rfl⟩
  | failed e =>
    cases results
    refine ⟨rfl, ⟨_, rfl, ?_⟩, rfl⟩
    simp [ScriptError.diagnostic]
  | crashed d => cases results

variable {script : Block} {base limit : Nat} {told : Exit → Prop}

theorem Ended.of_eq {depth : Nat} {why : Exit} {w v : World (η × List Event)}
    (ended : Ended script base limit told depth why w) (trace : v.host.2 = w.host.2)
    (scopes : v.context.scopes = w.context.scopes) :
    Ended script base limit told depth why v := by
  obtain ⟨deep, orderly, ending⟩ := ended
  rw [← scopes] at deep
  rw [← trace] at orderly ending
  exact ⟨deep, orderly, ending⟩

theorem chronicle_lasts : (chronicle η script base limit told base).Lasts
    fun w => w.host.2 = [] ∧ w.context.scopes.depth = base where
  cancelled _ fresh := fresh
  waiting _ suspended := ⟨suspended.orderly, suspended.atCall⟩
  resumes _ resumes := ⟨resumes.1, resumes.2.1, fun open' => absurd (resumes.2.2.1 open') nofun,
    resumes.2.2.2⟩
  dropped := by
    rintro w reason ⟨trace, depth⟩ tells
    obtain ⟨-, -, -, leaves, -⟩ := tells w
    rw [chronicle]
    refine ⟨depth, ?_, .inr ⟨?_, .told (leaves _ rfl)⟩⟩
    · rw [trace]
      exact trivial
    · rw [trace]
      exact List.forall_mem_nil _

namespace Session

/-- What a session shows that keeps a trace. -/
inductive Chronicled (script : Block) (base limit : Nat) (told : Exit → Prop)
    (s : Session (η × List Event)) : Prop
  | fresh {program : Action (World (η × List Event)) Unit} (phase : s.phase = .fresh program)
    (trace : s.world.host.2 = []) (depth : s.world.context.scopes.depth = base)
  | waiting {p : Prompt}
    {next : Resumption → World (η × List Event) → Course (World (η × List Event)) Unit}
    (phase : s.phase = .waiting p next) (suspended : Suspended script base limit s.world)
  | finished {result : RunResult} {why : Exit} (phase : s.phase = .finished result)
    (ended : Ended script base limit told base why s.world) (showing : result.Shows why)
  | broken {last : Option Prompt} {d : Defect} (phase : s.phase = .broken last)
    (ended : Ended script base limit told base (.crashed d) s.world)

theorem Upholds.chronicled {s : Session (η × List Event)} {finisher : Finisher η}
    (upholds : s.Upholds (chronicle η script base limit told base)
      fun w => w.host.2 = [] ∧ w.context.scopes.depth = base)
    (modest : finisher.Modest) (same : s.finisher = finisher.withMemory) :
    s.Chronicled script base limit told := by
  have modest' : s.finisher.Modest := same ▸ modest.withMemory
  have memory (result : Option RunResult) (w : World (η × List Event)) :
      (s.finisher.effect result w).2.host.2 = w.host.2 := by
    rw [same]
    exact finisher.withMemory_memory result w
  cases phase : s.phase with
  | fresh program =>
    obtain ⟨⟨trace, depth⟩, -⟩ := upholds.fresh phase
    exact .fresh phase trace depth
  | waiting p next => exact .waiting phase (upholds.waiting phase).1
  | finished result =>
    obtain @⟨why, v, noted, before, cancelled, exits, results, notes, acted, later⟩ :=
      upholds.finished phase
    obtain ⟨warnings, eq⟩ := modest'.result before noted
    have trace : s.world.host.2 = v.host.2 := by
      rw [later]
      exact (memory _ _).trans (notes ▸ rfl)
    have scopes : s.world.context.scopes = v.context.scopes := by
      rw [later]
      exact (modest'.scopes _ _).trans (notes ▸ rfl)
    exact .finished phase (Ended.of_eq exits trace scopes)
      (RunResult.shows_of_exit results (acted.trans eq))
  | broken last =>
    obtain ⟨d, v, exits, later⟩ := upholds.broken phase
    have trace := later.preserves (·.host.2) (fun _ _ => rfl) (memory none)
    have scopes := later.preserves (·.context.scopes) (fun _ _ => rfl) (modest'.scopes none)
    exact .broken phase (Ended.of_eq exits trace scopes)

/-- Over any history a session that keeps a trace keeps the contract. -/
theorem traced_upholds (setting : Setting η) (script : Block) (world : World η)
    (finisher : Finisher η) (moves : List Move) :
    (moves.foldl Session.move (ofTraced setting script world finisher)).Upholds
      (chronicle η script world.context.scopes.depth setting.maxIterations (ToldBy moves)
        world.context.scopes.depth)
      fun w => w.host.2 = [] ∧ w.context.scopes.depth = world.context.scopes.depth := by
  refine moves_uphold chronicle_lasts (fun m member r told w => ?_) ⟨⟨rfl, rfl⟩, ?_⟩
  · refine ⟨rfl, rfl, id, fun why eq => ⟨m, member, .inl (eq ▸ told)⟩, fun eq => ?_⟩
    exact ⟨m, member, .inr ⟨eq ▸ told, rfl⟩⟩
  · rintro w ⟨trace, depth⟩
    have kept : Kept script world.context.scopes.depth setting.maxIterations
        (fun k => iterationsSince k w.host.2) [] w := by
      refine ⟨⟨.nil, ?_, ?_, fun _ => ?_, fun _ _ => rfl⟩, depth⟩
      · rw [trace]
        exact trivial
      · rw [trace]
        exact List.forall_mem_nil _
      · rw [trace]
        exact List.forall_mem_nil _
    have statement : statementOf w.host.2 = none := by
      rw [trace]
      rfl
    refine (Traced.executeAll_meets setting script _ (ToldBy moves) script.statements _ [] none
      (fun _ => id) w ⟨kept, statement⟩).imp fun _ v both => ?_
    exact both.1.ended (.complete both.2)

theorem traced_chronicled (setting : Setting η) (script : Block) (world : World η)
    {finisher : Finisher η} (modest : finisher.Modest) (moves : List Move) :
    (moves.foldl Session.move (ofTraced setting script world finisher)).Chronicled script
      world.context.scopes.depth setting.maxIterations (ToldBy moves) :=
  (traced_upholds setting script world finisher moves).chronicled modest (moves_finisher _ _)

variable {s : Session (η × List Event)}

theorem Chronicled.orderly (chronicled : s.Chronicled script base limit told) :
    Orderly script base limit s.world.host.2 := by
  cases chronicled with
  | fresh _ trace =>
    rw [trace]
    exact trivial
  | waiting _ suspended => exact suspended.orderly
  | finished _ ended => exact ended.orderly
  | broken _ ended => exact ended.orderly

theorem Chronicled.suspended (chronicled : s.Chronicled script base limit told) {p : Prompt}
    {next : Resumption → World (η × List Event) → Course (World (η × List Event)) Unit}
    (waits : s.phase = .waiting p next) : Suspended script base limit s.world := by
  cases chronicled with
  | waiting _ suspended => exact suspended
  | fresh phase | finished phase | broken phase => cases phase.symm.trans waits

/-- When nothing is waited for, all frames are closed. -/
theorem Chronicled.closed (chronicled : s.Chronicled script base limit told)
    (idle : ∀ p next, s.phase ≠ .waiting p next) : s.world.context.scopes.depth = base := by
  cases chronicled with
  | fresh _ _ depth => exact depth
  | waiting phase => exact absurd phase (idle _ _)
  | finished _ ended => exact ended.depth
  | broken _ ended => exact ended.depth

end Session

end InstallScript
