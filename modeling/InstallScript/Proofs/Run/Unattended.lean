import InstallScript.Proofs.Catalog.Binding
import InstallScript.Proofs.Run.Abreast
import InstallScript.Proofs.Run.Congruent

/-!
Runs that nobody attends: each question gets its automatic answer. If the functions of the host give
what they declare, and ask only what answers itself as they declare (`Setting.Obliging`), then no
answer is refused and no result is of a wrong kind, in whatever position the questions stand
(`Run.unattended`). To drive such a run is one history of its session, in which each question has an
automatic answer that it accepts (`Session.drive_automatic`).
-/

namespace InstallScript

/-! ## Questions -/

/-- The automatic answer to a question is there, and is accepted as a value. -/
structure Prompt.AnswersItself (p : Prompt) (data : Datum) (v : Value) : Prop where
  given : p.automaticAnswer? = some data
  accepted : p.accept (.answer data) = .ok v

/-- The kind of value that the answers to a kind of question stand for. -/
def PromptKind.gives : PromptKind → ValueKind
  | confirm => .bool
  | choice | text => .string

/-- All questions answer themselves but choices between nothing. -/
theorem Prompt.answersItself {p : Prompt} (choices : p.kind = .choice → p.choices ≠ []) :
    ∃ data v, p.AnswersItself data v ∧ v.kind = p.kind.gives := by
  obtain ⟨function, kind, message, options⟩ := p
  cases kind with
  | confirm => exact ⟨.bool true, .bool true, ⟨rfl, rfl⟩, rfl⟩
  | text => exact ⟨.text "", .string "", ⟨rfl, rfl⟩, rfl⟩
  | choice =>
    obtain ⟨first, rest, rfl⟩ := List.exists_cons_of_ne_nil (choices rfl)
    have listed : (first :: rest).contains first = true :=
      List.contains_iff_mem.2 List.mem_cons_self
    exact ⟨.text first, .string first, ⟨rfl, if_pos listed⟩, rfl⟩

/-! ## Courses -/

/-- The ends of a run that nobody attends. Nobody cancels it, and it does not fail because an answer
or a result does not fit. -/
inductive Exit.Unattended : Exit → Prop
  | returned : Exit.Unattended .returned
  | failed {error : ScriptError} (other : error.fault.code ∉ ["E405", "E406"]) :
    Exit.Unattended (.failed error)
  | crashed (defect : Defect) : Exit.Unattended (.crashed defect)

/-- With the automatic answer at each question, which has one and accepts it, the course comes to the
postcondition or to such an end. -/
def Course.Unattended {σ α : Type} (post : α → σ → Prop) : Course σ α → Prop
  | .done a s => post a s
  | .exit why _ => why.Unattended
  | .ask p s next => ∃ data v, p.AnswersItself data v ∧
    (next (.reply (.answer data)) s).Unattended post

namespace Course.Unattended

variable {σ α β : Type} {post : α → σ → Prop} {c : Course σ α}

theorem andThen {final : β → σ → Prop} {f : α → σ → Course σ β} (first : c.Unattended post)
    (second : ∀ a s, post a s → (f a s).Unattended final) : (c.andThen f).Unattended final := by
  induction c with
  | done a s => exact second a s first
  | exit why s => exact first
  | ask p s next ih =>
    obtain ⟨data, v, answers, later⟩ := first
    exact ⟨data, v, answers, ih _ s later⟩

theorem atEnd {final : α → σ → Prop} {change : σ → σ} (unattended : c.Unattended post)
    (done : ∀ a s, post a s → final a (change s)) : (c.atEnd change).Unattended final := by
  induction c with
  | done a s => exact done a s unattended
  | exit why s => exact unattended
  | ask p s next ih =>
    obtain ⟨data, v, answers, later⟩ := unattended
    exact ⟨data, v, answers, ih _ s later⟩

end Course.Unattended

/-! ## Hosts -/

variable {η : Type}

/-- What comes of a function that gives values of a kind: it leaves the run uncancelled, its values
are of the kind, and so are the automatic answers to its questions. -/
structure Response.Obliging (r : Response η) (kind : ValueKind) : Prop where
  cancel : r.cancel = none
  values : ∀ data, r.outcome = .value data → ∃ v, Value.ofDatum? data = some v ∧ v.kind = kind
  questions : ∀ p, r.outcome = .question p → ∃ data v, p.AnswersItself data v ∧ v.kind = kind

/-- All that comes of the declared functions is as they declare. -/
def Setting.Obliging (setting : Setting η) : Prop :=
  ∀ f ∈ setting.catalog.functions, ∀ arguments directory h,
    (setting.host f arguments directory h).Obliging f.returns

/-- A host that does not cancel the run leaves it uncancelled. -/
theorem World.call_uncancelled {w : World η} {host : Host η} {f : FunctionSpec}
    {arguments : Arguments} {span : Span} (uncancelled : w.cancelled = none)
    (leaves : (host f arguments w.context.directory w.host).cancel = none) :
    (w.call host f arguments span).2.cancelled = none := by
  dsimp only [World.call, World.endCall]
  split
  · rename_i reason cancels
    cases leaves.symm.trans cancels
  · exact uncancelled

namespace Run

variable {α β : Type} {setting : Setting η}

/-- A part of a run that, unattended and not cancelled, gives values of some kind and leaves the run
uncancelled. -/
def Unattended (P : α → Prop) (m : Step η α) : Prop :=
  ∀ w : World η, w.cancelled = none → (m w).Unattended fun a v => P a ∧ v.cancelled = none

/-! ## Single steps -/

theorem unattended_pure {P : α → Prop} {a : α} (holds : P a) :
    Unattended P (Pure.pure a : Step η α) := fun _ uncancelled => ⟨holds, uncancelled⟩

theorem unattended_bind {P : α → Prop} {Q : β → Prop} {m : Step η α} {next : α → Step η β}
    (first : Unattended P m) (second : ∀ a, P a → Unattended Q (next a)) :
    Unattended Q (m >>= next) :=
  fun w uncancelled => (first w uncancelled).andThen fun a v both => second a both.1 v both.2

theorem unattended_leave {P : α → Prop} {why : Exit} (ends : why.Unattended) :
    Unattended P (Action.leave why : Step η α) := fun _ _ => ends

theorem unattended_fail {P : α → Prop} {fault : Fault} {span : Span} (code : String)
    (eq : fault.code = code) (other : code ∉ ["E405", "E406"] := by decide) :
    Unattended P (Action.fail fault span : Step η α) :=
  unattended_leave (.failed (by rwa [eq]))

theorem unattended_language {P : α → Prop} {fault : Fault} {span : Span}
    (own : fault.OfLanguage) : Unattended P (Action.fail fault span : Step η α) := by
  have apart : ∀ code ∈ ["E401", "E402", "E403", "E404", "E407"], code ∉ ["E405", "E406"] := by
    decide
  exact unattended_fail fault.code rfl (apart fault.code own)

theorem unattended_checkCancelled :
    Unattended (fun _ => True) (checkCancelled : Step η Unit) := by
  intro w uncancelled
  unfold checkCancelled
  rw [uncancelled]
  exact ⟨trivial, uncancelled⟩

theorem unattended_readVariable {span : Span} {name : String} :
    Unattended (fun _ => True) (readVariable span name : Step η Value) := by
  intro w uncancelled
  unfold readVariable
  split
  · exact ⟨trivial, uncancelled⟩
  · exact unattended_language (.of_code "E401" rfl) w uncancelled

theorem unattended_writeVariable {span : Span} {mode : AssignMode} {name : String}
    {value : Value} :
    Unattended (fun _ => True) (writeVariable span mode name value : Step η Unit) := by
  intro w uncancelled
  unfold writeVariable
  split
  · exact ⟨trivial, uncancelled⟩
  · split
    · exact ⟨trivial, uncancelled⟩
    · exact unattended_language (.of_code "E401" rfl) w uncancelled

theorem unattended_inFrame {P : α → Prop} {name : String} {m : Step η α}
    (inner : Unattended P m) : Unattended P (inFrame name m) :=
  fun w uncancelled => (inner (w.mapScopes (·.push name)) uncancelled).atEnd fun _ _ both => both

/-! ## Calls -/

theorem unattended_checkResult {f : FunctionSpec} {span : Span} {v : Value}
    (fits : v.kind = f.returns) :
    Unattended (fun _ => True) (checkResult f span (some v) : Step η Value) := by
  unfold checkResult
  dsimp only
  rw [if_pos fits]
  exact unattended_pure trivial

theorem unattended_handleFailure {f : FunctionSpec} {span : Span} {message : String} :
    Unattended (fun _ => True) (handleFailure f span message : Step η Value) := by
  intro w uncancelled
  unfold handleFailure
  split
  · exact unattended_fail "E501" rfl (by decide) _ uncancelled
  · exact ⟨trivial, uncancelled⟩

/-- The automatic answer counts, as the run is not cancelled. -/
theorem unattended_takeReply {f : FunctionSpec} {span : Span} {p : Prompt} {data : Datum}
    {v : Value} (answers : p.AnswersItself data v) (fits : v.kind = f.returns) :
    Unattended (fun _ => True) (takeReply f span p (.reply (.answer data)) : Step η Value) := by
  refine unattended_bind unattended_checkCancelled fun _ _ => ?_
  rw [answers.accepted]
  exact unattended_checkResult fits

theorem unattended_receive {f : FunctionSpec} {span : Span} {r : Response η}
    (obliging : r.Obliging f.returns) :
    Unattended (fun _ => True) (receive f span r.outcome : Step η Value) := by
  cases outcome : r.outcome with
  | value data =>
    obtain ⟨v, stands, fits⟩ := obliging.values data outcome
    rw [receive, stands]
    exact unattended_checkResult fits
  | failure message => exact unattended_handleFailure
  | crash defect => exact unattended_leave (.crashed defect)
  | question p =>
    obtain ⟨data, v, answers, fits⟩ := obliging.questions p outcome
    exact fun w uncancelled => ⟨data, v, answers, unattended_takeReply answers fits w uncancelled⟩

theorem unattended_callWith (obliging : setting.Obliging) {f : FunctionSpec}
    (declared : f ∈ setting.catalog.functions) {span : Span} {args : List Value}
    {kwargs : List (String × Value)} :
    Unattended (fun _ => True) (callWith setting f span args kwargs) := by
  unfold callWith
  split
  · rename_i arguments _
    intro w uncancelled
    have kept := obliging f declared arguments w.context.directory w.host
    rw [invoke_apply]
    exact unattended_receive kept _ (World.call_uncancelled uncancelled kept.cancel)
  · rename_i refused
    rcases FunctionSpec.bind_code refused with code | code
    · exact unattended_fail "E201" code
    · exact unattended_fail "E202" code

/-! ## Trees -/

/-- Whether a run goes on unattended is told by its steps. -/
theorem unattended_parallel (obliging : setting.Obliging) :
    Parallel .same setting setting.host fun P m _ => Unattended P m where
  pure := unattended_pure
  bind := unattended_bind
  returned := unattended_leave .returned
  fail _ := unattended_language
  overflow _ := unattended_leave (.crashed _)
  checkCancelled := unattended_checkCancelled
  readVariable _ := unattended_readVariable
  writeVariable _ _ := unattended_writeVariable
  inFrame := unattended_inFrame
  lookup := by
    rintro _ _ rfl
    rfl
  unknown _ _ := unattended_fail "E203" rfl
  call _ found _ _ := unattended_callWith obliging (List.mem_of_find?_eq_some found)

/-- With an obliging host every script goes on unattended. -/
theorem unattended (obliging : setting.Obliging) (ss : List Stmt) :
    Unattended (fun _ => True) (executeAll setting ss) :=
  (unattended_parallel obliging).executeAll (stmts_kin_same ss)

end Run

/-! ## Sessions -/

namespace Session

/-- The moves that answer questions, one after another. -/
def answering (answers : List (Prompt × Datum)) : List Move :=
  answers.map fun a => .resume (.answer a.2)

/-- Only the finisher counts for what becomes of a course. -/
theorem settle_of_finisher {s s' : Session η} (same : s.finisher = s'.finisher)
    (last : Option Prompt) (c : Course (World η) Unit) : s.settle last c = s'.settle last c := by
  obtain ⟨world, phase, finisher⟩ := s
  obtain ⟨world', phase', finisher'⟩ := s'
  cases same
  cases c with
  | done _ w => rfl
  | ask p w next => rfl
  | exit why w =>
    cases results : resultOfExit w why with
    | ok result =>
      rw [settle_of_ok results, settle_of_ok results]
      rfl
    | error d =>
      rw [settle_of_error results, settle_of_error results]

/-- A course that is driven comes to its end, and the session comes to the same by answering the
questions of the course. -/
theorem driven_by_answers {post : Unit → World η → Prop} (s : Session η)
    {c : Course (World η) Unit} (unattended : c.Unattended post) (last : Option Prompt) :
    let driven := c.drive automatic () last
    driven.refusal = none ∧ (∀ p w next, driven.course ≠ .ask p w next) ∧
      driven.course.Unattended post ∧
      ∃ answers : List (Prompt × Datum), (∀ a ∈ answers, ∃ v, a.1.AnswersItself a.2 v) ∧
        (s.settle last c).1 :: (s.settle last c).2.reports (answering answers) =
            answers.map (.prompt ·.1) ++ [(s.settle driven.lastPrompt driven.course).1] ∧
          (answering answers).foldl Session.move (s.settle last c).2 =
            (s.settle driven.lastPrompt driven.course).2 := by
  induction c generalizing last with
  | done _ w => exact ⟨rfl, nofun, unattended, [], List.forall_mem_nil _, rfl, rfl⟩
  | exit why w => exact ⟨rfl, nofun, unattended, [], List.forall_mem_nil _, rfl, rfl⟩
  | ask p w next ih =>
    obtain ⟨data, v, answers, later⟩ := unattended
    have drives : (Course.ask p w next).drive automatic () last =
        (next (.reply (.answer data)) w).drive automatic () (some p) := by
      rw [Course.drive, automatic, answers.given]
    have resumes : (s.settle last (.ask p w next)).2.resume (.answer data) =
        s.settle (some p) (next (.reply (.answer data)) w) := settle_of_finisher rfl _ _
    obtain ⟨willing, ended, ends, rest, each, shown, comes⟩ := ih _ w later (some p)
    intro driven
    have same : driven = (next (.reply (.answer data)) w).drive automatic () (some p) := drives
    rw [same]
    refine ⟨willing, ended, ends, (p, data) :: rest,
      List.forall_mem_cons.2 ⟨⟨v, answers⟩, each⟩, ?_, ?_⟩
    · rw [← resumes] at shown
      exact congrArg (Report.prompt p :: ·) shown
    · rw [← resumes] at comes
      exact comes

/-- The result of a run that has come to its end unattended. -/
theorem settle_unattended {s : Session η} (keeps : s.finisher.KeepsRun)
    (status : s.finisher.KeepsStatus) {last : Option Prompt} {c : Course (World η) Unit}
    {post : Unit → World η → Prop} (unattended : c.Unattended post)
    (ended : ∀ p w next, c ≠ .ask p w next) :
    (∀ p, (s.settle last c).1 ≠ .prompt p) ∧
      ∀ result, (s.settle last c).1 = .result result → result.status ≠ .aborted ∧
        ∀ e, result.error = some e → e.code ∉ ["E405", "E406"] := by
  have concludes {w : World η} {before : RunResult} (notAborted : before.status ≠ .aborted)
      (other : ∀ e, before.error = some e → e.code ∉ ["E405", "E406"]) :
      (∀ p, (conclude { s with world := w } before).1 ≠ .prompt p) ∧
        ∀ result, (conclude { s with world := w } before).1 = .result result →
          result.status ≠ .aborted ∧
            ∀ e, result.error = some e → e.code ∉ ["E405", "E406"] := by
    unfold conclude complete
    dsimp only
    split
    · rename_i acted world acts
      refine ⟨nofun, fun result same => ?_⟩
      cases same
      have keptStatus := status before (w.note .info .runs ("script " ++ before.summary))
      rw [Finisher.effect_of_ok acts, Option.or_some] at keptStatus
      rw [keeps.error acts]
      exact ⟨fun aborted => notAborted (keptStatus.symm.trans aborted), other⟩
    · exact ⟨nofun, nofun⟩
  cases c with
  | done _ w => exact concludes nofun nofun
  | ask p w next => exact absurd rfl (ended p w next)
  | exit why w =>
    have why : why.Unattended := unattended
    cases why with
    | returned => exact concludes nofun nofun
    | crashed d => exact ⟨nofun, nofun⟩
    | @failed error other =>
      refine concludes nofun fun e shown => ?_
      cases shown
      simpa [ScriptError.diagnostic] using other

/-- To drive a run with the automatic answers is one history of its session, if the host is obliging:
the run is started, and each question that it raises has an automatic answer that it accepts. In the
end it does not wait, is not aborted, and has not failed because an answer or a result does not
fit. -/
theorem drive_automatic {setting : Setting η} (obliging : setting.Obliging) (script : Block)
    {world : World η} (uncancelled : world.cancelled = none) {finisher : Finisher η}
    (keeps : finisher.KeepsRun) (status : finisher.KeepsStatus) :
    let session := ofScript setting script world finisher
    let driven := session.drive automatic ()
    ∃ answers : List (Prompt × Datum), (∀ a ∈ answers, ∃ v, a.1.AnswersItself a.2 v) ∧
      session.reports (.start :: answering answers) = answers.map (.prompt ·.1) ++ [driven.1] ∧
      (Move.start :: answering answers).foldl Session.move session = driven.2.1 ∧
      (∀ p, driven.1 ≠ .prompt p) ∧
      ∀ result, driven.1 = .result result → result.status ≠ .aborted ∧
        ∀ e, result.error = some e → e.code ∉ ["E405", "E406"] := by
  intro session driven
  have goesOn := Run.unattended obliging script.statements world uncancelled
  obtain ⟨willing, ended, ends, answers, each, shown, comes⟩ :=
    session.driven_by_answers goesOn none
  generalize drives : (Run.executeAll setting script.statements world).drive automatic () none =
    course at willing ended ends shown comes
  have settles : driven = ((session.settle course.lastPrompt course.course).1,
      (session.settle course.lastPrompt course.course).2, course.responder) := by
    unfold driven drive
    dsimp only [session, ofScript]
    rw [drives, willing]
  rw [settles]
  exact ⟨answers, each, shown, comes, settle_unattended keeps status ends ended⟩

end Session

end InstallScript
