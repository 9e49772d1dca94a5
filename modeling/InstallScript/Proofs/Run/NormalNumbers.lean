import InstallScript.Proofs.Catalog.Binding
import InstallScript.Proofs.Number.NormalValues
import InstallScript.Proofs.Run.Nesting
import InstallScript.Proofs.Run.ScopeStack
import InstallScript.Proofs.Run.Upkeep

/-!
Numbers of a run. Whatever a script does, whatever its host gives and whatever is replied, the
numbers that variables hold, that expressions give and that host functions are called with are in
normal form (`numbers_normal`).

A world is normal if its variables and the arguments of all calls so far are. Values come about in
the few ways told in `InstallScript.Proofs.Number.NormalValues`, so one induction over the tree
shows that a normal world leads to normal values and to normal worlds. It is about runs with a
trace, so that it also tells of the variables at every event; a run without a trace goes the same
way.
-/

namespace InstallScript

/-! ## Normal worlds -/

/-- The values of bindings, or of arguments, are normal. -/
def NormalEntries (entries : List (String × Value)) : Prop := ∀ entry ∈ entries, entry.2.IsNormal

theorem NormalEntries.lookup {entries : List (String × Value)} (normal : NormalEntries entries)
    {key : String} {v : Value} (found : entries.lookup key = some v) : v.IsNormal := by
  obtain ⟨front, back, rfl, -⟩ := List.lookup_eq_some_iff.1 found
  exact normal (key, v) (List.mem_append_right _ (List.mem_cons_self ..))

theorem NormalEntries.set {b : Bindings} (normal : NormalEntries b) (name : String) {v : Value}
    (normal' : v.IsNormal) : NormalEntries (b.set name v) := by
  induction b with
  | nil => exact List.forall_mem_singleton.2 normal'
  | cons entry rest ih =>
    obtain ⟨first, others⟩ := List.forall_mem_cons.1 normal
    rw [Bindings.set]
    split
    · exact List.forall_mem_cons.2 ⟨normal', others⟩
    · exact List.forall_mem_cons.2 ⟨first, ih others⟩

/-- All variables hold normal values. -/
def Scopes.IsNormal (s : Scopes) : Prop := ∀ f ∈ s.all, NormalEntries f.bindings

namespace Scopes.IsNormal

variable {s : Scopes}

theorem get? (normal : s.IsNormal) {name : String} {v : Value} (found : s.get? name = some v) :
    v.IsNormal := by
  rw [get?_eq] at found
  obtain ⟨f, inside, bound⟩ := List.exists_of_findSome?_eq_some found
  exact (normal f inside).lookup bound

theorem bind (normal : s.IsNormal) (name : String) {v : Value} (normal' : v.IsNormal) :
    (s.bind name v).IsNormal := by
  obtain ⟨f, outer, all, changed⟩ := s.all_bind name v
  unfold IsNormal at normal ⊢
  rw [all] at normal
  rw [changed]
  obtain ⟨first, others⟩ := List.forall_mem_cons.1 normal
  exact List.forall_mem_cons.2 ⟨first.set _ normal', others⟩

theorem update? (normal : s.IsNormal) {name : String} {v : Value} (normal' : v.IsNormal)
    {s' : Scopes} (updates : s.update? name v = some s') : s'.IsNormal := by
  obtain ⟨inner, f, outer, all, -, -, changed⟩ := (changed_of_update? updates).all
  unfold IsNormal at normal ⊢
  rw [all] at normal
  rw [changed]
  obtain ⟨front, others⟩ := List.forall_mem_append.1 normal
  obtain ⟨here, back⟩ := List.forall_mem_cons.1 others
  exact List.forall_mem_append.2 ⟨front, List.forall_mem_cons.2 ⟨here.set _ normal', back⟩⟩

theorem push (normal : s.IsNormal) (name : String) : (s.push name).IsNormal :=
  List.forall_mem_cons.2 ⟨List.forall_mem_nil _, normal⟩

theorem pop (normal : s.IsNormal) : s.pop.IsNormal := by
  intro f inside
  rcases List.mem_append.1 inside with frame | global
  · exact normal f (List.mem_append_left _ (List.mem_of_mem_tail frame))
  · exact normal f (List.mem_append_right _ global)

end Scopes.IsNormal

variable {η : Type}

/-- All variables and the arguments of all calls so far are normal. -/
structure World.IsNormal (w : World η) : Prop where
  scopes : w.context.scopes.IsNormal
  calls : ∀ call ∈ w.calls, NormalEntries call.2

theorem World.IsNormal.of_eq {η' : Type} {w : World η} {v : World η'} (normal : w.IsNormal)
    (scopes : v.context.scopes = w.context.scopes) (calls : v.calls = w.calls) : v.IsNormal :=
  ⟨scopes ▸ normal.scopes, calls ▸ normal.calls⟩

/-- A call with normal arguments. -/
theorem World.IsNormal.call {w : World η} (normal : w.IsNormal) (host : Host η) (f : FunctionSpec)
    {arguments : Arguments} (normal' : NormalEntries arguments) (span : Span) :
    (w.call host f arguments span).2.IsNormal := by
  refine ⟨w.call_scopes host f arguments span ▸ normal.scopes, fun call made => ?_⟩
  rcases Array.mem_push.1 made with earlier | rfl
  · exact normal.calls call earlier
  · exact normal'

/-- The world is normal, and the variables have been so at every event. -/
structure World.AlwaysNormal (w : World (η × List Event)) : Prop extends w.IsNormal where
  events : ∀ m ∈ w.host.2, m.scopes.IsNormal

namespace World.AlwaysNormal

variable {w v : World (η × List Event)}

theorem of_eq (normal : w.AlwaysNormal) (scopes : v.context.scopes = w.context.scopes)
    (calls : v.calls = w.calls) (trace : v.host.2 = w.host.2) : v.AlwaysNormal :=
  ⟨normal.toIsNormal.of_eq scopes calls, trace ▸ normal.events⟩

theorem withScopes (normal : w.AlwaysNormal) {f : Scopes → Scopes}
    (normal' : (f w.context.scopes).IsNormal) : (w.mapScopes f).AlwaysNormal :=
  ⟨⟨normal', normal.calls⟩, normal.events⟩

theorem marked (normal : w.AlwaysNormal) (blocks : List Block) (deed : Deed) :
    (w.marked blocks deed).AlwaysNormal :=
  ⟨normal.toIsNormal.of_eq rfl rfl, List.forall_mem_cons.2 ⟨normal.scopes, normal.events⟩⟩

end World.AlwaysNormal

/-- The contract of runs whose numbers are normal. -/
def normalContract (η : Type) : Contract (World η) where
  waits _ w := w.IsNormal
  resumes w _ t := t.context.scopes = w.context.scopes ∧ t.calls = w.calls
  exits _ w := w.IsNormal

/-- The contract of runs with a trace whose numbers are normal at every event. -/
def alwaysNormalContract (η : Type) : Contract (World (η × List Event)) where
  waits _ w := w.AlwaysNormal
  resumes w _ t :=
    t.context.scopes = w.context.scopes ∧ t.calls = w.calls ∧ t.host.2 = w.host.2
  exits _ w := w.AlwaysNormal

/-! ## Arguments -/

namespace FunctionSpec

theorem dedupe_normal {arguments : Arguments} (normal : NormalEntries arguments) :
    NormalEntries (dedupe arguments) := by
  induction arguments with
  | nil => exact List.forall_mem_nil _
  | cons entry rest ih =>
    obtain ⟨first, others⟩ := List.forall_mem_cons.1 normal
    have kept : NormalEntries ((dedupe rest).filter fun e => decide (e.1 ≠ entry.1)) :=
      fun e member => ih others e (List.mem_of_mem_filter member)
    rw [dedupe]
    refine List.forall_mem_cons.2 ⟨?_, kept⟩
    cases later : rest.reverse.lookup entry.1 with
    | none => exact first
    | some v =>
      refine NormalEntries.lookup (fun entry member => ?_) later
      exact others entry (List.mem_reverse.1 member)

/-- Normal values are bound, together with normal defaults. -/
theorem bind_normal {f : FunctionSpec}
    (defaults : ∀ p ∈ f.params, ∀ v, p.default = some v → v.IsNormal) {args : List Value}
    {kwargs : List (String × Value)} (positional : ∀ v ∈ args, v.IsNormal)
    (named : NormalEntries kwargs) {arguments : Arguments}
    (bound : f.bind args kwargs = .ok arguments) : NormalEntries arguments := by
  unfold bind at bound
  split at bound
  · cases bound
  rename_i matched _
  dsimp only at bound
  split at bound
  · cases bound
  cases bound
  refine dedupe_normal fun entry member => ?_
  obtain ⟨p, inside, rfl⟩ := List.mem_map.1 member
  rcases valueOf_cases (matched.positional.zip args ++ matched.named.zip (kwargs.map (·.2))) p with
    ⟨pair, given, -, value⟩ | ⟨-, value⟩
  · show (valueOf _ p).IsNormal
    rw [value]
    rcases List.mem_append.1 given with first | later
    · exact positional _ (List.of_mem_zip first).2
    · obtain ⟨entry, among, eq⟩ := List.mem_map.1 (List.of_mem_zip later).2
      exact eq ▸ named entry among
  · show (valueOf _ p).IsNormal
    rw [value]
    cases default : p.default with
    | none => trivial
    | some v => exact defaults p inside v default

end FunctionSpec

/-! ## Single steps -/

/-- A part of a run that leads from normal worlds to normal ones and gives values of some kind. -/
abbrev Run.Normal {α : Type} (m : Step η α) (P : α → Prop) : Prop :=
  Upholds (normalContract η) World.IsNormal m P

namespace Traced

open Run (Upholds)

/-- The same of a part of a run with a trace. -/
abbrev Normal {α : Type} (m : Step η α) (P : α → Prop) : Prop :=
  Upholds (alwaysNormalContract η) World.AlwaysNormal m P

theorem leave_normal {α : Type} {P : α → Prop} (why : Exit) :
    Normal (Action.leave why : Step η α) P :=
  Action.Meets.leave fun _ normal => normal

theorem mark_normal (blocks : List Block) (deed : Deed) :
    Normal (mark blocks deed : Step η Unit) fun _ => True :=
  fun _ normal => ⟨trivial, normal.marked blocks deed⟩

theorem pass_normal (blocks : List Block) (b : Boundary) :
    Normal (pass blocks b : Step η Unit) fun _ => True := by
  refine (mark_normal blocks (.boundary b)).bind fun _ _ w normal => ?_
  unfold Run.checkCancelled
  split
  · exact normal
  · exact ⟨trivial, normal⟩

theorem readVariable_normal (span : Span) (name : String) :
    Normal (Run.readVariable span name : Step η Value) Value.IsNormal := by
  intro w normal
  unfold Run.readVariable
  split
  · rename_i v found
    exact ⟨normal.scopes.get? found, normal⟩
  · exact normal

theorem writeVariable_normal (span : Span) (mode : AssignMode) (name : String) {v : Value}
    (normal' : v.IsNormal) :
    Normal (Run.writeVariable span mode name v : Step η Unit) fun _ => True := by
  intro w normal
  unfold Run.writeVariable
  split
  · exact ⟨trivial, normal.withScopes (normal.scopes.bind name normal')⟩
  · split
    · rename_i scopes updates
      exact ⟨trivial, normal.withScopes (normal.scopes.update? normal' updates)⟩
    · exact normal

theorem inFrame_normal {α : Type} {P : α → Prop} (name : String) {body : Step η α}
    (inner : Normal body P) : Normal (Run.inFrame name body) P :=
  Action.Meets.within (fun _ normal => normal.withScopes (normal.scopes.push name)) inner
    (fun _ _ normal => normal.withScopes normal.scopes.pop)
    fun _ _ both => ⟨both.1, both.2.withScopes both.2.scopes.pop⟩

/-- What an operator gives. -/
theorem settle_normal (span : Span) {r : Except Trouble Value}
    (gives : ∀ v, r = .ok v → v.IsNormal) :
    Normal (Run.settle span r : Step η Value) Value.IsNormal := by
  cases r with
  | ok v => exact .pure (gives v rfl)
  | error trouble => cases trouble <;> exact leave_normal _

/-! ## Calls -/

theorem checkResult_normal (f : FunctionSpec) (span : Span) {result : Option Value}
    (gives : ∀ v, result = some v → v.IsNormal) :
    Normal (Run.checkResult f span result : Step η Value) Value.IsNormal := by
  cases result with
  | none => exact leave_normal _
  | some v =>
    unfold Run.checkResult
    dsimp only
    split
    · exact .pure (gives v rfl)
    · exact leave_normal _

theorem handleFailure_normal (f : FunctionSpec) (span : Span) (message : String) :
    Normal (Run.handleFailure f span message : Step η Value) Value.IsNormal := by
  intro w normal
  unfold Run.handleFailure
  split
  · exact leave_normal _ _ (normal.of_eq rfl rfl rfl)
  · exact ⟨f.fallback_isNormal, normal.of_eq rfl rfl rfl⟩

theorem takeReply_normal (blocks : List Block) (f : FunctionSpec) (span : Span) (p : Prompt)
    (r : Resumption) : Normal (takeReply blocks f span p r : Step η Value) Value.IsNormal := by
  cases r with
  | leave why => exact leave_normal why
  | reply reply =>
    cases reply with
    | abort => exact leave_normal _
    | answer data =>
      refine (pass_normal blocks (.answer p)).bind fun _ _ => ?_
      split
      · rename_i v accepts
        refine checkResult_normal f span fun v' eq => ?_
        cases eq
        exact Prompt.accept_isNormal accepts
      · exact leave_normal _

variable {setting : Setting η} (blocks : List Block)

/-- A call with normal arguments, whatever the host gives and whatever is replied. -/
theorem callWith_normal (c : Call) {f : FunctionSpec}
    (defaults : ∀ p ∈ f.params, ∀ v, p.default = some v → v.IsNormal) {args : List Value}
    {kwargs : List (String × Value)} (positional : ∀ v ∈ args, v.IsNormal)
    (named : NormalEntries kwargs) :
    Normal (callWith setting.traced blocks c f args kwargs) Value.IsNormal := by
  unfold callWith
  split
  · rename_i arguments bound
    refine (mark_normal blocks (.call c)).bind fun _ _ w normal => ?_
    have called : (w.call setting.traced.host f arguments c.span).2.AlwaysNormal :=
      ⟨normal.toIsNormal.call _ f (FunctionSpec.bind_normal defaults positional named bound) c.span,
        normal.events⟩
    rw [invoke_apply]
    cases (w.call setting.traced.host f arguments c.span).1 with
    | value data =>
      exact checkResult_normal f c.span (fun v stands => Value.ofDatum?_isNormal stands) _ called
    | failure message => exact handleFailure_normal f c.span message _ called
    | crash defect => exact called
    | question p =>
      refine ⟨called, fun r t resumes => ?_⟩
      obtain ⟨scopes, calls, trace⟩ := resumes
      exact takeReply_normal blocks f c.span p r t (called.of_eq scopes calls trace)
  · exact leave_normal _

/-! ## Expressions -/

mutual

/-- The value of an expression is normal. -/
theorem evaluate_normal (defaults : setting.catalog.DefaultsNormal) :
    ∀ e, Normal (evaluate setting.traced blocks e) Value.IsNormal
  | .literal _ l => .pure (Run.literalValue_isNormal l)
  | .var span name => readVariable_normal span name
  | .call c => evaluateCall_normal defaults c
  | .unary span o e => by
    have inner := evaluate_normal defaults e
    cases o with
    | not => exact inner.bind fun _ _ => .pure trivial
    | minus => exact inner.bind fun _ _ => settle_normal span fun _ => Value.negate_isNormal
  | .binary span o a b => by
    have first := evaluate_normal defaults a
    have second := evaluate_normal defaults b
    cases o with
    | and =>
      refine first.bind fun v _ => ?_
      show Normal (if setting.truthiness.holds v then _ else _) _
      split
      · exact second.bind fun _ _ => .pure trivial
      · exact .pure trivial
    | or =>
      refine first.bind fun v _ => ?_
      show Normal (if setting.truthiness.holds v then _ else _) _
      split
      · exact .pure trivial
      · exact second.bind fun _ _ => .pure trivial
    | _ =>
      exact first.bind fun _ _ => second.bind fun _ _ =>
        settle_normal span fun _ => Value.apply_isNormal

theorem evaluateCall_normal (defaults : setting.catalog.DefaultsNormal) :
    ∀ c, Normal (evaluateCall setting.traced blocks c) Value.IsNormal
  | .mk span name arguments keywords => by
    rw [evaluateCall]
    split
    · exact leave_normal _
    · rename_i f found
      have declared : f ∈ setting.catalog.functions := List.mem_of_find?_eq_some found
      refine (evaluateAll_normal defaults arguments).bind fun args positional => ?_
      refine (evaluateKeywords_normal defaults keywords).bind fun kwargs named => ?_
      exact callWith_normal blocks _ (defaults f declared) positional named

theorem evaluateAll_normal (defaults : setting.catalog.DefaultsNormal) :
    ∀ es, Normal (evaluateAll setting.traced blocks es) fun vs => ∀ v ∈ vs, v.IsNormal
  | [] => .pure (List.forall_mem_nil _)
  | e :: rest =>
    (evaluate_normal defaults e).bind fun _ first =>
      (evaluateAll_normal defaults rest).bind fun _ others =>
        .pure (List.forall_mem_cons.2 ⟨first, others⟩)

theorem evaluateKeywords_normal (defaults : setting.catalog.DefaultsNormal) :
    ∀ ks, Normal (evaluateKeywords setting.traced blocks ks) NormalEntries
  | [] => .pure (List.forall_mem_nil _)
  | .mk _ _ e :: rest =>
    (evaluate_normal defaults e).bind fun _ first =>
      (evaluateKeywords_normal defaults rest).bind fun _ others =>
        .pure (List.forall_mem_cons.2 ⟨first, others⟩)

end

/-! ## Loops -/

theorem repeatWhile_normal (s : Stmt) (span : Span) {test : Step η Bool} {body : Nat → Step η Unit}
    (tests : Normal test fun _ => True) (bodies : ∀ number, Normal (body number) fun _ => True)
    (n number : Nat) :
    Normal (repeatWhile setting.traced blocks s span test body n number) fun _ => True := by
  induction n generalizing number with
  | zero =>
    refine (pass_normal blocks (.round s)).bind fun _ _ => tests.bind fun again _ => ?_
    split
    · exact (mark_normal blocks (.excess number)).bind fun _ _ => leave_normal _
    · exact .pure trivial
  | succ n ih =>
    refine (pass_normal blocks (.round s)).bind fun _ _ => tests.bind fun again _ => ?_
    split
    · exact (bodies number).bind fun _ _ => ih (number + 1)
    · exact .pure trivial

theorem repeatFor_normal (s : Stmt) (span : Span) (last step : Number)
    {body : Nat → Number → Step η Unit}
    (bodies : ∀ number current, Normal (body number current) fun _ => True) (n number : Nat)
    (current : Number) :
    Normal (repeatFor setting.traced blocks s span last step body n number current)
      fun _ => True := by
  have advances (current : Number) : Normal (Run.advanceBy step current : Step η Number)
      fun _ => True := by
    unfold Run.advanceBy
    split
    · exact .pure trivial
    · exact leave_normal _
  induction n generalizing number current with
  | zero =>
    refine (pass_normal blocks (.round s)).bind fun _ _ => ?_
    split
    · exact (mark_normal blocks (.excess number)).bind fun _ _ => leave_normal _
    · exact .pure trivial
  | succ n ih =>
    refine (pass_normal blocks (.round s)).bind fun _ _ => ?_
    split
    · refine (bodies number current).bind fun _ _ => ?_
      exact (advances current).bind fun next _ => ih (number + 1) next
    · exact .pure trivial

theorem loopNumber_normal (span : Span) (label : String) (v : Value) :
    Normal (Run.loopNumber span label v : Step η Number) fun _ => True := by
  cases v with
  | number n => exact .pure trivial
  | _ => exact leave_normal _

/-- A counted loop, once its bounds and its step have values. The counter holds a normal number,
whatever the steps add up to. -/
theorem countedLoop_normal (s : Stmt) (span : Span) (counter : String) (inner : Block)
    {first last step : Value} {body : Step η Unit} (bodies : Normal body fun _ => True) :
    Normal (do
      let first ← Run.loopNumber span "start" first
      let last ← Run.loopNumber span "end" last
      let step ← Run.loopNumber span "step" step
      if step.isZero then Action.fail .zeroStep span
      else
        let each (number : Nat) (current : Number) : Step η Unit :=
          Run.inFrame "for-loop" do
            Run.writeVariable span .bind counter (.ofNumber current)
            mark (inner :: blocks) (.iteration number (some (counter, current)))
            body
        repeatFor setting.traced blocks s span last step each setting.maxIterations 1 first)
      fun _ => True := by
  refine (loopNumber_normal span "start" first).bind fun first _ => ?_
  refine (loopNumber_normal span "end" last).bind fun last _ => ?_
  refine (loopNumber_normal span "step" step).bind fun step _ => ?_
  split
  · exact leave_normal _
  · refine repeatFor_normal blocks s span last step (fun number current => ?_) _ _ _
    have counted := Value.ofNumber_isNormal current
    refine inFrame_normal "for-loop" ?_
    refine (writeVariable_normal span .bind counter counted).bind fun _ _ => ?_
    exact (mark_normal _ _).bind fun _ _ => bodies

/-! ## Statements -/

mutual

/-- A statement leads from a normal world to normal worlds. -/
theorem execute_normal (defaults : setting.catalog.DefaultsNormal) (blocks : List Block) :
    ∀ s, Normal (execute setting.traced blocks s) fun _ => True
  | .assign span mode name e =>
    (evaluate_normal blocks defaults e).bind fun _ normal =>
      writeVariable_normal span mode name normal
  | .call c => (evaluateCall_normal blocks defaults c).bind fun _ _ => .pure trivial
  | .choice _ branches none =>
    (executeFirst_normal defaults blocks branches).bind fun _ _ => .pure trivial
  | .choice _ branches (some otherwise) => by
    refine (executeFirst_normal defaults blocks branches).bind fun chosen _ => ?_
    split
    · exact .pure trivial
    · exact executeBlock_normal defaults blocks "else" otherwise
  | .whileLoop span condition (.mk bodySpan statements) => by
    refine repeatWhile_normal blocks _ span ?_ (fun number => inFrame_normal "while-loop" ?_) _ _
    · exact (evaluate_normal blocks defaults condition).bind fun _ _ => .pure trivial
    · exact (mark_normal _ _).bind fun _ _ =>
        executeAll_normal defaults (.mk bodySpan statements :: blocks) statements
  | .forLoop span counter first last none (.mk bodySpan statements) => by
    refine (evaluate_normal blocks defaults first).bind fun first _ => ?_
    refine (evaluate_normal blocks defaults last).bind fun last _ => ?_
    refine Upholds.bind (P := fun _ => True) (.pure trivial) fun step _ => ?_
    exact countedLoop_normal blocks _ span counter (.mk bodySpan statements)
      (executeAll_normal defaults (.mk bodySpan statements :: blocks) statements)
  | .forLoop span counter first last (some step) (.mk bodySpan statements) => by
    refine (evaluate_normal blocks defaults first).bind fun first _ => ?_
    refine (evaluate_normal blocks defaults last).bind fun last _ => ?_
    refine (evaluate_normal blocks defaults step).bind fun step _ => ?_
    exact countedLoop_normal blocks _ span counter (.mk bodySpan statements)
      (executeAll_normal defaults (.mk bodySpan statements :: blocks) statements)
  | .block body => executeBlock_normal defaults blocks "block" body
  | .ret _ => leave_normal _
  | .comment _ _ => .pure trivial

theorem executeFirst_normal (defaults : setting.catalog.DefaultsNormal) (blocks : List Block) :
    ∀ branches, Normal (executeFirst setting.traced blocks branches) fun _ => True
  | [] => .pure trivial
  | .mk _ condition body :: rest => by
    refine (evaluate_normal blocks defaults condition).bind fun v _ => ?_
    show Normal (if setting.truthiness.holds v then _ else _) _
    split
    · exact (executeBlock_normal defaults blocks "if-branch" body).bind fun _ _ => .pure trivial
    · exact executeFirst_normal defaults blocks rest

theorem executeBlock_normal (defaults : setting.catalog.DefaultsNormal) (blocks : List Block)
    (name : String) :
    ∀ b, Normal (executeBlock setting.traced blocks name b) fun _ => True
  | .mk span statements =>
    inFrame_normal name (executeAll_normal defaults (.mk span statements :: blocks) statements)

/-- Statements lead from a normal world to normal worlds. -/
theorem executeAll_normal (defaults : setting.catalog.DefaultsNormal) (blocks : List Block) :
    ∀ statements, Normal (executeAll setting.traced blocks statements) fun _ => True
  | [] => .pure trivial
  | s :: rest =>
    (pass_normal blocks (.statement s)).bind fun _ _ =>
      (execute_normal defaults blocks s).bind fun _ _ => executeAll_normal defaults blocks rest

end

end Traced

/-! ## Runs without a trace -/

namespace Run

/-- A step goes the way of one with a trace, so it keeps numbers normal as well. -/
theorem Normal.of_traced {α : Type} {P : α → Prop} {m : Step η α} {m' : Traced.Step η α}
    (erases : Traced.Erases m m') (normal : Traced.Normal m' P) : Normal m P := by
  intro w before
  have always : (w.withMemory []).AlwaysNormal := ⟨before.of_eq rfl rfl, List.forall_mem_nil _⟩
  refine (erases w _ (w.like_remembered [])).meets (normal _ always) ?_ ?_ ?_ ?_
  · exact fun p v v' like normal => normal.toIsNormal.of_eq (congrArg _ like.context) like.calls
  · rintro v v' r t like ⟨scopes, calls⟩
    refine ⟨t.withMemory v'.host.2, t.like_remembered _, ?_, ?_, rfl⟩
    · exact scopes.trans (congrArg _ like.context)
    · exact calls.trans like.calls
  · exact fun why v v' like normal => normal.toIsNormal.of_eq (congrArg _ like.context) like.calls
  · exact fun a v v' like both =>
      ⟨both.1, both.2.toIsNormal.of_eq (congrArg _ like.context) like.calls⟩

variable {setting : Setting η}

theorem evaluate_normal (defaults : setting.catalog.DefaultsNormal) (e : Expr) :
    Normal (evaluate setting e) Value.IsNormal :=
  .of_traced (((Traced.erases_tracing setting).expressions []).evaluate e)
    (Traced.evaluate_normal [] defaults e)

theorem execute_normal (defaults : setting.catalog.DefaultsNormal) (s : Stmt) :
    Normal (execute setting s) fun _ => True :=
  .of_traced ((Traced.erases_tracing setting).execute [] s fun _ _ _ _ _ => trivial)
    (Traced.execute_normal defaults [] s)

end Run

/-! ## Sessions -/

theorem alwaysNormal_lasts : (alwaysNormalContract η).Lasts World.AlwaysNormal where
  cancelled _ normal := normal.of_eq rfl rfl rfl
  waiting _ normal := normal.of_eq rfl rfl rfl
  resumes _ same := same
  dropped normal _ := normal

/-- Over any history of a session with a trace the numbers are normal, at every event. -/
theorem Session.traced_alwaysNormal {setting : Setting η}
    (defaults : setting.catalog.DefaultsNormal) (script : Block) {world : World η}
    (start : world.IsNormal) {finisher : Finisher η} (modest : finisher.Modest)
    (moves : List Move) :
    (moves.foldl Session.move (ofTraced setting script world finisher)).world.AlwaysNormal := by
  have fresh : (ofTraced setting script world finisher).Upholds (alwaysNormalContract η)
      World.AlwaysNormal := by
    refine ⟨⟨start.of_eq rfl rfl, List.forall_mem_nil _⟩, fun w normal => ?_⟩
    exact (Traced.executeAll_normal defaults [] script.statements w normal).imp
      fun _ _ both => both.2
  have upholds : (moves.foldl Session.move (ofTraced setting script world finisher)).Upholds
      (alwaysNormalContract η) World.AlwaysNormal :=
    moves_uphold alwaysNormal_lasts (fun _ _ _ _ _ => ⟨rfl, rfl, rfl⟩) fresh
  refine upholds.holds (fun _ => id) (fun _ _ => id) (fun _ _ => id)
    (fun _ _ normal => normal.of_eq rfl rfl rfl) (fun _ _ normal => normal.of_eq rfl rfl rfl) ?_
  rw [moves_finisher]
  exact fun result w normal => normal.of_eq (modest.withMemory.scopes result w)
    (modest.withMemory.calls result w) (finisher.withMemory_memory result w)

/-- Numbers are always in normal form. With a catalog that has been read or comes with the library,
the defaults of parameters and the fallbacks of failed calls are normal; every expression gives a
normal value and every statement keeps variables and arguments of calls normal, wherever in a run
they are executed, whatever the host gives and whatever is replied; and in every session that starts
with normal variables the variables are normal at every event and the arguments of all calls are. So
a number that is equal to a whole number is always kept, and printed, as that whole number. -/
theorem numbers_normal {setting : Setting η} (loaded : setting.catalog.Loaded) :
    (setting.catalog.DefaultsNormal ∧ ∀ f : FunctionSpec, f.fallback.IsNormal) ∧
      (∀ e, Run.Normal (Run.evaluate setting e) Value.IsNormal) ∧
      (∀ s, Run.Normal (Run.execute setting s) fun _ => True) ∧
      (∀ (script : Block) (world : World η) (finisher : Finisher η) (moves : List Session.Move),
        world.IsNormal → finisher.Modest →
          let session := moves.foldl Session.move (Session.ofScript setting script world finisher)
          let traced := moves.foldl Session.move (Session.ofTraced setting script world finisher)
          session.Same traced ∧ session.world.IsNormal ∧
            ∀ m ∈ traced.world.host.2, m.scopes.IsNormal) ∧
      ∀ n : Number, n.IsNormal ↔
        ∀ k : Int, n.same (.int k) = true → n = .int k ∧ n.text = toString k := by
  have defaults := loaded.defaultsNormal
  refine ⟨⟨defaults, FunctionSpec.fallback_isNormal⟩, Run.evaluate_normal defaults,
    Run.execute_normal defaults, fun script world finisher moves start modest => ?_, fun n => ?_⟩
  · intro session traced
    have normal : traced.world.AlwaysNormal :=
      Session.traced_alwaysNormal defaults script start modest moves
    have same : session.Same traced :=
      Session.traced_same setting script world finisher moves modest.keepsRun
    have scopes : session.world.context.scopes = traced.world.context.scopes :=
      Session.traced_scopes setting script world modest moves
    exact ⟨same, normal.toIsNormal.of_eq scopes same.calls, normal.events⟩
  · rw [Number.isNormal_iff]
    refine ⟨fun only k same => ?_, fun only k same => (only k same).1⟩
    obtain rfl := only k same
    exact ⟨rfl, rfl⟩

/-- A bundled dialect whose functions do nothing. -/
def idleSetting : Setting Unit where
  catalog := Dialect.stateOfDecay.definition.catalog
  host _ _ directory h := .ofValue h directory .none

/-- A script that adds a half and three halves. -/
def halves : Block :=
  let two : Expr := .literal default (.number (.int 2))
  let half (n : Int) : Expr := .binary default .slash (.literal default (.number (.int n))) two
  .mk default [.assign default .bind "x" (.binary default .plus (half 1) (half 3))]

theorem numbers_normal_halves :
    let session := ([.start].foldl Session.move
      (Session.ofScript idleSetting halves ⟨{}, (), none, #[], #[]⟩ Finisher.idle))
    session.world.context.scopes.get? "x" = some (.ofInt 2) ∧ session.world.IsNormal := by
  intro session
  have empty : World.IsNormal (⟨{}, (), none, #[], #[]⟩ : World Unit) := by
    refine ⟨List.forall_mem_singleton.2 (List.forall_mem_nil _), fun call made => ?_⟩
    cases Array.not_mem_empty call made
  have loaded : idleSetting.catalog.Loaded := .bundled List.mem_cons_self
  obtain ⟨-, -, -, sessions, -⟩ := numbers_normal loaded
  obtain ⟨-, normal, -⟩ := sessions halves _ _ [.start] empty Finisher.idle_modest
  exact ⟨by decide +kernel, normal⟩

end InstallScript
