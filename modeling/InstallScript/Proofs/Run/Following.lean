import InstallScript.Proofs.Run.Congruent

/-!
Runs that go the same way. Two runs of one script under two hosts come to the same as long as the
hosts respond alike (`Host.Follows`). Two differences make no difference: a question that one host
asks and that is answered as prepared, while the other host gives the answer right away; and a
failure that does not end the run, while the other host gives the fallback and leaves the warning
itself. The relation is carried through trees (`executeAll_follows`).
-/

namespace InstallScript

/-- In what the worlds of two runs are alike, besides what a run keeps track of. -/
structure Likeness (η η' : Type) where
  /-- The states of the hosts after so many calls. -/
  hosts : Nat → η → η' → Prop
  /-- Whether the logs are the same. -/
  logged : Prop

section

variable {η η' : Type} {l : Likeness η η'} {answers : Nat → Option Datum}

/-- The worlds of two runs that have gone the same way so far. -/
structure World.Like (l : Likeness η η') (w : World η) (w' : World η') : Prop where
  context : w.context = w'.context
  cancelled : w.cancelled = w'.cancelled
  calls : w.calls = w'.calls
  host : l.hosts w.calls.size w.host w'.host
  log : l.logged → w.log = w'.log

namespace World.Like

variable {w : World η} {w' : World η'}

theorem mapContext (like : w.Like l w') (f : Context → Context) :
    (w.mapContext f).Like l (w'.mapContext f) :=
  { like with context := congrArg f like.context }

theorem mapScopes (like : w.Like l w') (f : Scopes → Scopes) :
    (w.mapScopes f).Like l (w'.mapScopes f) :=
  like.mapContext _

theorem note (like : w.Like l w') (level : LogLevel) (logger : Logger) (message : String) :
    (w.note level logger message).Like l (w'.note level logger message) :=
  { like with log := fun logged => congrArg (·.push ⟨level, logger, message⟩) (like.log logged) }

theorem cancel (like : w.Like l w') (reason : String) :
    World.Like l { w with cancelled := some reason } { w' with cancelled := some reason } :=
  { like with cancelled := rfl }

end World.Like

/-! ## Courses -/

/-- A course goes the same way as another one, up to questions with prepared answers, which the
other one does not ask. The number of a question is that of the call that asks it. -/
inductive Course.Follows {α : Type} (l : Likeness η η') (answers : Nat → Option Datum)
    (P : α → Prop) : Course (World η) α → Course (World η') α → Prop
  | done {a : α} {w : World η} {w' : World η'} (holds : P a) (like : w.Like l w') :
    Follows l answers P (.done a w) (.done a w')
  | exit {why : Exit} {w : World η} {w' : World η'} (like : w.Like l w') :
    Follows l answers P (.exit why w) (.exit why w')
  | ask {p : Prompt} {w : World η} {w' : World η'}
    {next : Resumption → World η → Course (World η) α}
    {next' : Resumption → World η' → Course (World η') α} (like : w.Like l w')
    (unprepared : answers w.calls.size = none)
    (goesOn : ∀ r t t', t.Like l t' → Follows l answers P (next r t) (next' r t')) :
    Follows l answers P (.ask p w next) (.ask p w' next')
  | answered {p : Prompt} {data : Datum} {w : World η}
    {next : Resumption → World η → Course (World η) α} {c : Course (World η') α}
    (prepared : answers w.calls.size = some data)
    (goesOn : ∀ v, w.cancelled = none → p.accept (.answer data) = .ok v →
      Follows l answers P (next (.reply (.answer data)) w) c) :
    Follows l answers P (.ask p w next) c

namespace Course.Follows

variable {α β : Type} {P : α → Prop} {Q : β → Prop} {c : Course (World η) α}
  {c' : Course (World η') α}

theorem andThen {f : α → World η → Course (World η) β} {f' : α → World η' → Course (World η') β}
    (first : c.Follows l answers P c')
    (second : ∀ a w w', P a → w.Like l w' → (f a w).Follows l answers Q (f' a w')) :
    (c.andThen f).Follows l answers Q (c'.andThen f') := by
  induction first with
  | done holds like => exact second _ _ _ holds like
  | exit like => exact .exit like
  | ask like unprepared _ ih => exact .ask like unprepared ih
  | answered prepared _ ih => exact .answered prepared ih

theorem atEnd {change : World η → World η} {change' : World η' → World η'}
    (follows : c.Follows l answers P c')
    (changes : ∀ w w', w.Like l w' → (change w).Like l (change' w')) :
    (c.atEnd change).Follows l answers P (c'.atEnd change') := by
  induction follows with
  | done holds like => exact .done holds (changes _ _ like)
  | exit like => exact .exit (changes _ _ like)
  | ask like unprepared _ ih => exact .ask like unprepared ih
  | answered prepared _ ih => exact .answered prepared ih

/-- What the other course keeps is kept, if no answers are prepared and worlds that are alike fit
the contracts alike. -/
theorem meets {k : Contract (World η)} {k' : Contract (World η')} {post : α → World η → Prop}
    {post' : α → World η' → Prop} (follows : c.Follows l (fun _ => none) P c')
    (meets : c'.Meets k' post')
    (waits : ∀ p w w', w.Like l w' → k'.waits p w' → k.waits p w)
    (resumes : ∀ w w' r t, w.Like l w' → k.resumes w r t → ∃ t', t.Like l t' ∧ k'.resumes w' r t')
    (exits : ∀ why w w', w.Like l w' → k'.exits why w' → k.exits why w)
    (done : ∀ a w w', w.Like l w' → post' a w' → post a w) : c.Meets k post := by
  induction follows with
  | done holds like => exact done _ _ _ like meets
  | exit like => exact exits _ _ _ like meets
  | ask like _ _ ih =>
    refine ⟨waits _ _ _ like meets.1, fun r t told => ?_⟩
    obtain ⟨t', alike, told'⟩ := resumes _ _ r t like told
    exact ih r t t' alike (meets.2 r t' told')
  | answered prepared => cases prepared

end Course.Follows

/-- A computation goes the same way as another one from worlds that are alike. -/
def Action.Follows {α : Type} (l : Likeness η η') (answers : Nat → Option Datum) (P : α → Prop)
    (m : Action (World η) α) (m' : Action (World η') α) : Prop :=
  ∀ w w', w.Like l w' → (m w).Follows l answers P (m' w')

namespace Action.Follows

variable {α β : Type} {P : α → Prop} {Q : β → Prop}

theorem pure {a : α} (holds : P a) :
    Action.Follows l answers P (Pure.pure a : Action (World η) α) (Pure.pure a) :=
  fun _ _ like => .done holds like

theorem leave {why : Exit} :
    Action.Follows l answers P (Action.leave why : Action (World η) α) (Action.leave why) :=
  fun _ _ like => .exit like

theorem bind {m : Action (World η) α} {m' : Action (World η') α} {next : α → Action (World η) β}
    {next' : α → Action (World η') β} (first : Action.Follows l answers P m m')
    (second : ∀ a, P a → Action.Follows l answers Q (next a) (next' a)) :
    Action.Follows l answers Q (m >>= next) (m' >>= next') :=
  fun w w' like => (first w w' like).andThen fun a _ _ holds => second a holds _ _

end Action.Follows

/-! ## Responses -/

/-- Responses that do the same to the run, up to remarks that only the second one makes. -/
structure Response.Like (l : Likeness η η') (calls : Nat) (r : Response η) (r' : Response η')
    (remarks : List Remark) : Prop where
  host : l.hosts calls r.host r'.host
  directory : r.directory = r'.directory
  warnings : r'.warnings = r.warnings ++ remarks
  cancel : r.cancel = r'.cancel
  log : l.logged → r.log = r'.log

/-- The warning about a failure, as a host may leave it itself. -/
def FunctionSpec.remark (f : FunctionSpec) (message : String) : Remark :=
  { message := s!"{f.name}(): {message}", code := "W501" }

/-- The response of a host to its call of a number goes the same way as that of another host. -/
inductive Response.Follows (l : Likeness η η') (answers : Nat → Option Datum) (f : FunctionSpec)
    (number : Nat) (r : Response η) (r' : Response η') : Prop
  | same (outcome : r.outcome = r'.outcome)
    (unprepared : ∀ p, r.outcome = .question p → answers number = none)
    (like : r.Like l number r' [])
  | answered {p : Prompt} {data : Datum} (asks : r.outcome = .question p)
    (prepared : answers number = some data) (gives : r'.outcome = .value data)
    (like : r.Like l number r' [])
  /-- The failure is one that does not end the run; it leaves a log record. -/
  | excused {message : String} (recoverable : f.failure = .recoverable)
    (fails : r.outcome = .failure message) (gives : r'.outcome = .value f.fallback.toDatum)
    (unlogged : ¬ l.logged) (like : r.Like l number r' [f.remark message])

/-- A host responds to calls as another one does. -/
def Host.Follows (l : Likeness η η') (answers : Nat → Option Datum) (host : Host η)
    (host' : Host η') : Prop :=
  ∀ f arguments directory calls h h', l.hosts calls h h' →
    (host f arguments directory h).Follows l answers f (calls + 1) (host' f arguments directory h')

/-- The context when a call with warnings is over. -/
def Context.afterCall (c : Context) (span : Span) (remarks : List Remark)
    (directory : List String) : Context :=
  let warned := remarks.foldl (fun c x => c.addWarning x.message x.span x.code)
    { c with invocations := c.invocations + 1, callSpan := some span }
  { warned with directory, callSpan := none }

theorem Context.foldl_addWarning_callSpan (remarks : List Remark) (c : Context) :
    (remarks.foldl (fun c x => c.addWarning x.message x.span x.code) c).callSpan = c.callSpan := by
  induction remarks generalizing c with
  | nil => rfl
  | cons x remarks ih => exact ih (c.addWarning x.message x.span x.code)

/-- A warning without a stretch is about the call in progress. -/
theorem Context.addWarning_of_callSpan {c : Context} {span : Span} (place : c.callSpan = some span)
    (message code : String) : c.addWarning message none code =
      c.addWarning message (some span) code := by
  simp only [addWarning, warningFor, place]

/-- A warning about the call, left by the host or by the run. -/
theorem Context.afterCall_remark (c : Context) (f : FunctionSpec) (span : Span)
    (remarks : List Remark) (message : String) (directory : List String) :
    c.afterCall span (remarks ++ [f.remark message]) directory =
      (c.afterCall span remarks directory).addWarning s!"{f.name}(): {message}" (some span)
        "W501" := by
  have place := foldl_addWarning_callSpan remarks
    { c with invocations := c.invocations + 1, callSpan := some span }
  unfold afterCall
  rw [List.foldl_append]
  generalize remarks.foldl _ _ = warned at place
  show { warned.addWarning s!"{f.name}(): {message}" none "W501" with
    directory, callSpan := none } = _
  rw [addWarning_of_callSpan place]
  rfl

theorem World.Like.call {w : World η} {w' : World η'} (like : w.Like l w') (f : FunctionSpec)
    (arguments : Arguments) (span : Span) {r : Response η} {r' : Response η'}
    (responds : r.Like l (w.calls.size + 1) r' []) :
    ((w.beginCall f arguments span).endCall r).Like l
      ((w'.beginCall f arguments span).endCall r') := by
  obtain ⟨context, host, cancelled, calls, log⟩ := w
  obtain ⟨context', host', cancelled', calls', log'⟩ := w'
  obtain ⟨rfl, rfl, rfl, hosts, logs⟩ := like
  have warnings : r'.warnings = r.warnings := responds.warnings.trans (List.append_nil _)
  constructor
  · show context.afterCall span r.warnings r.directory =
      context.afterCall span r'.warnings r'.directory
    rw [warnings, responds.directory]
  · simp only [World.endCall, responds.cancel]
    rfl
  · rfl
  · have size : (calls.push (f.name, arguments)).size = calls.size + 1 := Array.size_push _
    show l.hosts (calls.push (f.name, arguments)).size r.host r'.host
    rw [size]
    exact responds.host
  · intro logged
    show log.push _ ++ r.log.toArray = log'.push _ ++ r'.log.toArray
    have same : log = log' := logs logged
    rw [same, responds.log logged]

/-- A warning about the call that the host leaves is as good as one that the run leaves. -/
theorem World.endCall_remark (w : World η) (f : FunctionSpec) (arguments : Arguments) (span : Span)
    {r : Response η} {warnings : List Remark} {message : String}
    (remarked : r.warnings = warnings ++ [f.remark message]) :
    (w.beginCall f arguments span).endCall r =
      ((w.beginCall f arguments span).endCall { r with warnings }).mapContext fun c =>
        c.addWarning s!"{f.name}(): {message}" (some span) "W501" := by
  have context := w.context.afterCall_remark f span warnings message r.directory
  rw [← remarked] at context
  calc (w.beginCall f arguments span).endCall r
      = { (w.beginCall f arguments span).endCall { r with warnings } with
          context := w.context.afterCall span r.warnings r.directory } := rfl
    _ = _ := by
      rw [context]
      rfl

end

/-! ## Single steps -/

namespace Run

section

variable {η η' : Type} {l : Likeness η η'} {answers : Nat → Option Datum} {α : Type}

theorem checkCancelled_follows :
    Action.Follows l answers (fun _ => True) (checkCancelled : Step η Unit) checkCancelled := by
  intro w w' like
  unfold checkCancelled
  rw [← like.cancelled]
  split
  · exact .exit like
  · exact .done trivial like

theorem readVariable_follows {span : Span} {name : String} :
    Action.Follows l answers (fun _ => True) (readVariable span name : Step η Value)
      (readVariable span name) := by
  intro w w' like
  unfold readVariable
  rw [← like.context]
  split
  · exact .done trivial like
  · exact .exit like

theorem writeVariable_follows {span : Span} {mode : AssignMode} {name : String} {value : Value} :
    Action.Follows l answers (fun _ => True) (writeVariable span mode name value : Step η Unit)
      (writeVariable span mode name value) := by
  intro w w' like
  unfold writeVariable
  rw [← like.context]
  split
  · exact .done trivial (like.mapScopes _)
  · split
    · exact .done trivial (like.mapScopes _)
    · exact .exit like

theorem inFrame_follows {P : α → Prop} {name : String} {m : Step η α} {m' : Step η' α}
    (follows : Action.Follows l answers P m m') :
    Action.Follows l answers P (inFrame name m) (inFrame name m') :=
  fun _ _ like => (follows _ _ (like.mapScopes _)).atEnd fun _ _ like => like.mapScopes _

/-! ## Calls -/

theorem checkResult_follows {f : FunctionSpec} {span : Span} {result : Option Value} :
    Action.Follows l answers (fun _ => True) (checkResult f span result : Step η Value)
      (checkResult f span result) := by
  unfold checkResult
  split
  · split
    · exact .pure trivial
    · exact .leave
  · exact .leave

theorem handleFailure_follows {f : FunctionSpec} {span : Span} {message : String} :
    Action.Follows l answers (fun _ => True) (handleFailure f span message : Step η Value)
      (handleFailure f span message) := by
  intro w w' like
  unfold handleFailure
  split
  · exact .exit (like.note _ _ _)
  · exact .done trivial ((like.note _ _ _).mapContext _)

theorem takeReply_follows {f : FunctionSpec} {span : Span} {p : Prompt} {r : Resumption} :
    Action.Follows l answers (fun _ => True) (takeReply f span p r : Step η Value)
      (takeReply f span p r) := by
  cases r with
  | leave why => exact .leave
  | reply reply =>
    cases reply with
    | abort => exact .leave
    | answer data =>
      refine checkCancelled_follows.bind fun _ _ => ?_
      split
      · exact checkResult_follows
      · exact .leave

/-- An accepted answer is what the host could have given itself. -/
theorem ofDatum?_of_accept {p : Prompt} {data : Datum} {v : Value}
    (admits : p.accept (.answer data) = .ok v) : Value.ofDatum? data = some v := by
  unfold Prompt.accept at admits
  split at admits
  · rename_i same
    cases same
    cases admits
    rfl
  · cases admits
  · rename_i same
    cases same
    split at admits
    · cases admits
      rfl
    · cases admits
  · rename_i same
    cases same
    cases admits
    rfl
  · cases admits

theorem takeReply_of_accept {f : FunctionSpec} {span : Span} {p : Prompt} {data : Datum} {v : Value}
    {w : World η} (open' : w.cancelled = none) (admits : p.accept (.answer data) = .ok v) :
    takeReply f span p (.reply (.answer data)) w = checkResult f span (some v) w := by
  have goesOn : checkCancelled w = .done () w := by
    unfold checkCancelled
    rw [open']
  simp only [takeReply, admits]
  show (checkCancelled w).andThen (fun _ => _) = _
  rw [goesOn]
  rfl

/-- A function may return its own fallback. -/
theorem checkResult_fallback {f : FunctionSpec} {span : Span} :
    (checkResult f span (Value.ofDatum? f.fallback.toDatum) : Step η Value) =
      Action.pure f.fallback := by
  have stands : Value.ofDatum? f.fallback.toDatum = some f.fallback ∧
      f.fallback.kind = f.returns := by
    unfold FunctionSpec.fallback
    cases f.returns <;> exact ⟨rfl, rfl⟩
  unfold checkResult
  rw [stands.1]
  exact if_pos stands.2

theorem handleFailure_of_recoverable {f : FunctionSpec} (recoverable : f.failure = .recoverable)
    (span : Span) (message : String) (w : World η) :
    handleFailure f span message w = .done f.fallback
      ((w.note .warning .runs s!"{f.name}() failed, continuing: {message}").mapContext fun c =>
        c.addWarning s!"{f.name}(): {message}" (some span) "W501") := by
  unfold handleFailure
  rw [recoverable]

/-- Calls of hosts that respond alike. -/
theorem invoke_follows {setting : Setting η} {host : Host η'}
    (hosts : setting.host.Follows l answers host) {f : FunctionSpec} {span : Span}
    {arguments : Arguments} :
    Action.Follows l answers (fun _ => True) (invoke setting f span arguments)
      (invoke (setting.withHost host) f span arguments) := by
  intro w w' like
  rw [invoke_apply, invoke_apply]
  show (receive f span (setting.host f arguments w.context.directory w.host).outcome
      ((w.beginCall f arguments span).endCall
        (setting.host f arguments w.context.directory w.host))).Follows l answers _
    (receive f span (host f arguments w'.context.directory w'.host).outcome
      ((w'.beginCall f arguments span).endCall (host f arguments w'.context.directory w'.host)))
  rw [← like.context]
  have responds := hosts f arguments w.context.directory _ _ _ like.host
  generalize setting.host f arguments w.context.directory w.host = r at responds ⊢
  generalize host f arguments w.context.directory w'.host = r' at responds ⊢
  have size : ((w.beginCall f arguments span).endCall r).calls.size = w.calls.size + 1 :=
    Array.size_push _
  cases responds with
  | same outcome unprepared effects =>
    have after := like.call f arguments span effects
    rw [← outcome]
    cases came : r.outcome with
    | value data => exact checkResult_follows _ _ after
    | failure message => exact handleFailure_follows _ _ after
    | crash d => exact .exit after
    | question p =>
      refine .ask after ?_ fun _ _ _ like => takeReply_follows _ _ like
      rw [size]
      exact unprepared p came
  | @answered p data asks prepared gives effects =>
    have after := like.call f arguments span effects
    rw [asks, gives]
    have prepared' : answers _ = some data := size.symm ▸ prepared
    refine .answered prepared' fun v open' admits => ?_
    show (takeReply f span p (.reply (.answer data)) _).Follows l answers _ _
    rw [takeReply_of_accept open' admits]
    show Course.Follows l answers _ _ (checkResult f span (Value.ofDatum? data) _)
    rw [ofDatum?_of_accept admits]
    exact checkResult_follows _ _ after
  | @excused message recoverable fails gives unlogged effects =>
    rw [fails, gives]
    show (handleFailure f span message _).Follows l answers _
      (checkResult f span (Value.ofDatum? f.fallback.toDatum) _)
    rw [handleFailure_of_recoverable recoverable, checkResult_fallback,
      w'.endCall_remark f arguments span effects.warnings]
    refine .done trivial (World.Like.mapContext ?_ _)
    have effects' : r.Like l (w.calls.size + 1) { r' with warnings := r.warnings } [] :=
      { effects with warnings := (List.append_nil _).symm }
    have after := like.call f arguments span effects'
    exact { after with log := fun logged => absurd logged unlogged }

end

/-! ## Trees -/

variable {η η' : Type} {l : Likeness η η'} {answers : Nat → Option Datum}

theorem follows_congruent {setting : Setting η} {host : Host η'}
    (hosts : setting.host.Follows l answers host) :
    Congruent setting host (fun _ => True) fun P m m' => Action.Follows l answers P m m' where
  pure := .pure
  bind := .bind
  leave _ := .leave
  overflow _ := .leave
  checkCancelled := checkCancelled_follows
  readVariable := readVariable_follows
  writeVariable := writeVariable_follows
  inFrame := inFrame_follows
  unknown _ _ := .leave
  call := by
    intro c f args kwargs _ _ _
    unfold callWith
    split
    · exact invoke_follows hosts
    · exact .leave

/-- A script goes the same way under hosts that respond alike. -/
theorem executeAll_follows {setting : Setting η} {host : Host η'}
    (hosts : setting.host.Follows l answers host) (ss : List Stmt) :
    Action.Follows l answers (fun _ => True) (executeAll setting ss)
      (executeAll (setting.withHost host) ss) :=
  (follows_congruent hosts).executeAll ss fun _ _ => trivial

end Run

end InstallScript
