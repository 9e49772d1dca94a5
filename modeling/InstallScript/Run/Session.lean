import InstallScript.Run.Evaluate
import InstallScript.Run.Result

/-!
Sessions. A session holds one run of a script: it is started, it may wait for replies, and it comes
to a result, which a finisher may act on. A run that meets a defect breaks off without a result.
-/

namespace InstallScript

/-- What is done when a run is over. A run that had broken off and is then continued is over
without a result. -/
abbrev Finisher (η : Type) :=
  Option RunResult → World η → Except Defect (Option RunResult × World η)

/-- The finisher that does nothing. -/
def Finisher.idle {η : Type} : Finisher η := fun result world => .ok (result, world)

/-- How far a session has come. -/
inductive Phase (η : Type)
  | fresh (program : Action (World η) Unit)
  | waiting (prompt : Prompt) (next : Resumption → World η → Course (World η) Unit)
  | finished (result : RunResult)
  /-- The run has broken off. The question that was last open may still look open. -/
  | broken (pending : Option Prompt)

/-- A run of a script with the state that it works on. -/
structure Session (η : Type) where
  world : World η
  phase : Phase η
  finisher : Finisher η := Finisher.idle

/-- What an operation on a session gives. -/
inductive Report
  | prompt (prompt : Prompt)
  | result (result : RunResult)
  | nothing
  | raised (defect : Defect)
  deriving DecidableEq, Repr

namespace Session

variable {η : Type}

/-- A session for a script that is about to run. -/
def ofScript (setting : Setting η) (script : Block) (world : World η)
    (finisher : Finisher η := Finisher.idle) : Session η :=
  ⟨world, .fresh (Run.executeAll setting script.statements), finisher⟩

/-- The open question. -/
def pending (s : Session η) : Option Prompt :=
  match s.phase with
  | .waiting p _ => some p
  | .broken p => p
  | _ => none

/-- Whether there is a result. -/
def isFinished (s : Session η) : Bool :=
  match s.phase with
  | .finished _ => true
  | _ => false

/-- Ends the run with a result, after the finisher has acted on it. -/
def complete (s : Session η) (result : RunResult) : Report × Session η :=
  match s.finisher (some result) s.world with
  | .ok (acted, world) =>
    let final := acted.getD result
    (.result final, { s with world, phase := .finished final })
  | .error d => (.raised d, { s with phase := .finished result })

/-- The result with a given status; the warnings so far belong to it. -/
def resultOf (w : World η) (status : RunStatus) (error : Option Diagnostic)
    (abortReason : Option String) : RunResult :=
  ⟨status, w.context.warnings.toList, error, abortReason⟩

/-- The result that an exit is, unless it is a defect. An error that shows no line yet gets the one
it starts on. -/
def resultOfExit (w : World η) : Exit → Except Defect RunResult
  | .returned => .ok (resultOf w .success none none)
  | .aborted reason => .ok (resultOf w .aborted none (some reason))
  | .failed error =>
    let shown := (error.withLineIfMissing w.context.sourceLines).diagnostic
    .ok (resultOf w .failed (some shown) none)
  | .crashed d => .error d

/-- Ends the run with a result and a log record. -/
def conclude (s : Session η) (result : RunResult) : Report × Session η :=
  complete { s with world := s.world.note .info .runs ("script " ++ result.summary) } result

/-- Takes over what has come of the run; `last` is the question that was open before. -/
def settle (s : Session η) (last : Option Prompt) :
    Course (World η) Unit → Report × Session η
  | .done _ w => conclude { s with world := w } (resultOf w .success none none)
  | .ask p w next => (.prompt p, { s with world := w, phase := .waiting p next })
  | .exit why w =>
    match resultOfExit w why with
    | .ok result => conclude { s with world := w } result
    | .error d => (.raised d, { s with world := w, phase := .broken last })

/-- Starts the run. -/
def start (s : Session η) : Report × Session η :=
  match s.phase with
  | .fresh program => s.settle none (program s.world)
  | _ => (.raised .alreadyStarted, s)

/-- Replies to the open question. A run that had broken off is then over without a result. -/
def resume (s : Session η) (reply : Reply) : Report × Session η :=
  match s.phase with
  | .waiting p next => s.settle (some p) (next (.reply reply) s.world)
  | .broken (some _) =>
    let closed := { s with phase := .broken none }
    match s.finisher none s.world with
    | .ok (_, world) => (.nothing, { closed with world })
    | .error d => (.raised d, closed)
  | _ => (.raised .notWaiting, s)

/-- Cancels the run. A run that is over keeps its result. -/
def abort (s : Session η) (reason : String := cancelledByUser) : Report × Session η :=
  match s.phase with
  | .finished result => (.result result, s)
  | .fresh _ => s.conclude (resultOf s.world .aborted none (some reason))
  | .waiting p next => s.settle (some p) (next (.leave (.aborted reason)) s.world)
  | .broken _ => (.raised (.abandoned reason), s)

/-- Ends a waiting run with an error. -/
def fail (s : Session η) (error : ScriptError) : Report × Session η :=
  match s.phase with
  | .waiting p next => s.settle (some p) (next (.leave (.failed error)) s.world)
  | .broken (some _) => (.raised (.script error), s)
  | _ => (.raised .notWaiting, s)

/-- Sets the cancellation of the run. -/
def cancel (s : Session η) (reason : String := cancelledByUser) : Session η :=
  { s with world := { s.world with cancelled := some reason } }

/-- Starts the run and replies to its questions until it is over or a question has no reply. -/
def drive {γ : Type} (s : Session η) (respond : Course.Responder γ) (responder : γ) :
    Report × Session η × γ :=
  match s.phase with
  | .fresh program =>
    let driven := (program s.world).drive respond responder none
    let (report, settled) := s.settle driven.lastPrompt driven.course
    match driven.refusal with
    | some d => (.raised d, settled, driven.responder)
    | none => (report, settled, driven.responder)
  | _ => (.raised .alreadyStarted, s, responder)

end Session

/-! ## Responders -/

/-- Nobody is there to reply: the run fails. -/
def nobody : Course.Responder Unit := fun _ p =>
  (.ok (.leave (.failed ⟨.noPromptHandler p.function, none, none⟩)), ())

/-- Replies that are prepared in advance; when they are used up the run is cancelled. -/
def prepared : Course.Responder (List Reply)
  | reply :: rest, _ => (.ok (.reply reply), rest)
  | [], _ => (.ok (.reply .abort), [])

/-- Always the automatic answer. -/
def automatic : Course.Responder Unit := fun _ p =>
  match p.automaticAnswer? with
  | some data => (.ok (.reply (.answer data)), ())
  | none => (.error .noChoice, ())

end InstallScript
