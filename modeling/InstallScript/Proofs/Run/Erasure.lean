import InstallScript.Proofs.Run.Paired

/-!
Runs with a trace are the same runs. Without its trace a run with a trace goes the way that the run
without one goes (`Traced.executeAll_follows`), so a session that keeps a trace shows what the
session shows that keeps none, after any history (`Session.traced_same`).
-/

namespace InstallScript

variable {η : Type}

namespace Traced

/-- The step with a trace goes the same way as the step without one. -/
abbrev Erases {α : Type} (m : Run.Step η α) (m' : Step η α) : Prop :=
  Action.Follows (remembered η (List Event)) (fun _ => none) (fun _ => True) m m'

theorem mark_erases {blocks : List Block} {deed : Deed} :
    Erases (Pure.pure () : Run.Step η Unit) (mark blocks deed) := by
  intro w w' like
  refine .done trivial ?_
  rw [World.Like.remembered_iff] at like ⊢
  exact like

theorem pass_erases {blocks : List Block} {b : Boundary} :
    Erases (Run.checkCancelled : Run.Step η Unit) (pass blocks b) := by
  have both : Erases (Pure.pure () >>= fun _ => Run.checkCancelled : Run.Step η Unit)
      (pass blocks b) := mark_erases.bind fun _ _ => Run.checkCancelled_follows
  exact both

theorem takeReply_erases {blocks : List Block} {f : FunctionSpec} {span : Span} {p : Prompt}
    {r : Resumption} :
    Erases (Run.takeReply f span p r : Run.Step η Value) (takeReply blocks f span p r) := by
  cases r with
  | leave why => exact .leave
  | reply reply =>
    cases reply with
    | abort => exact .leave
    | answer data =>
      refine pass_erases.bind fun _ _ => ?_
      cases p.accept (.answer data) with
      | ok v => exact Run.checkResult_follows
      | error reason => exact .leave

/-- What a call does with what has come of its host function. -/
def receive (blocks : List Block) (f : FunctionSpec) (span : Span) : Outcome → Step η Value
  | .value data => Run.checkResult f span (Value.ofDatum? data)
  | .failure message => Run.handleFailure f span message
  | .crash defect => Action.leave (.crashed defect)
  | .question p => Action.ask p >>= takeReply blocks f span p

theorem invoke_apply (setting : Setting (η × List Event)) (blocks : List Block) (f : FunctionSpec)
    (span : Span) (arguments : Arguments) (w : World (η × List Event)) :
    invoke setting blocks f span arguments w =
      receive blocks f span (w.call setting.host f arguments span).1
        (w.call setting.host f arguments span).2 := by
  unfold invoke
  split <;> rename_i called <;> rw [called] <;> rfl

theorem receive_erases {blocks : List Block} {f : FunctionSpec} {span : Span} {outcome : Outcome} :
    Erases (Run.receive f span outcome : Run.Step η Value) (receive blocks f span outcome) := by
  cases outcome with
  | value data => exact Run.checkResult_follows
  | failure message => exact Run.handleFailure_follows
  | crash d => exact .leave
  | question p =>
    intro w w' like
    exact .ask like rfl fun r t t' like => takeReply_erases t t' like

theorem invoke_erases {setting : Setting η} {blocks : List Block} {f : FunctionSpec} {span : Span}
    {arguments : Arguments} :
    Erases (Run.invoke setting f span arguments)
      (invoke setting.traced blocks f span arguments) := by
  intro w w' like
  rw [Run.invoke_apply, invoke_apply]
  cases World.Like.remembered_iff.1 like
  exact receive_erases _ _ (World.Like.remembered_iff.2 rfl)

theorem callWith_erases {setting : Setting η} {blocks : List Block} {c : Call} {f : FunctionSpec}
    {args : List Value} {kwargs : List (String × Value)} :
    Erases (Run.callWith setting f c.span args kwargs)
      (callWith setting.traced blocks c f args kwargs) := by
  unfold Run.callWith callWith
  cases f.bind args kwargs with
  | ok arguments =>
    have both : Erases (Pure.pure () >>= fun _ => Run.invoke setting f c.span arguments)
        (mark blocks (.call c) >>= fun _ => invoke setting.traced blocks f c.span arguments) :=
      mark_erases.bind fun _ _ => invoke_erases
    exact both
  | error fault => exact .leave

theorem erases_tracing (setting : Setting η) :
    Run.StatementTracing setting (fun _ _ => True) fun _ _ m m' => Erases m m' where
  pure := .pure trivial
  bind first second := first.bind fun a _ => second a
  mono _ erases := erases
  leave := .leave
  mark _ := mark_erases
  checkCancelled := Run.checkCancelled_follows
  readVariable := Run.readVariable_follows
  writeVariable _ := Run.writeVariable_follows
  inFrame _ _ _ erases := Run.inFrame_follows erases
  call _ := callWith_erases

/-- Without its trace a run with a trace goes the same way. -/
theorem executeAll_erases (setting : Setting η) (ss : List Stmt) :
    Erases (Run.executeAll setting ss) (executeAll setting.traced [] ss) :=
  (erases_tracing setting).executeAll [] ss fun _ _ _ _ _ => trivial

end Traced

namespace Session

section

variable (setting : Setting η) (script : Block) (world : World η) (finisher : Finisher η)
  (moves : List Move)

/-- A session keeps up with the session that keeps a trace. -/
theorem traced_abreast :
    (moves.foldl Session.move (ofScript setting script world finisher)).Abreast
      (remembered η (List Event)) (fun _ => none)
      (moves.foldl Session.move (ofTraced setting script world finisher)) := by
  have start : (ofScript setting script world finisher).Abreast (remembered η (List Event))
      (fun _ => none) (ofTraced setting script world finisher) :=
    .fresh rfl rfl (world.like_remembered []) (Traced.executeAll_erases setting script.statements)
  exact (Plays.of_none _ moves).abreast start finisher.alike_remembered

/-- A session that keeps a trace shows the same. -/
theorem traced_same (keeps : finisher.KeepsRun) :
    (moves.foldl Session.move (ofScript setting script world finisher)).Same
      (moves.foldl Session.move (ofTraced setting script world finisher)) := by
  have abreast := traced_abreast setting script world finisher moves
  have unprepared := (Plays.of_none (ofScript setting script world finisher) moves).unprepared
  refine abreast.same unprepared fun _ => abreast.calls unprepared ?_ ?_
  · rwa [moves_finisher]
  · rw [moves_finisher]
    exact Finisher.withMemory_keepsRun keeps

end

end Session

end InstallScript
