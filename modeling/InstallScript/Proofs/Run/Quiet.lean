import InstallScript.Proofs.Run.Contract
import InstallScript.Proofs.Run.Congruent

/-!
Quiet steps. Most steps of a run do not call the host and do not ask anything: they come to an end
with the same variables, the same calls and the same host (`Course.Rests`). A call of a script is
refused, or it makes one call of the host, which may ask one question; what comes behind it is quiet
again (`Run.callWith_calls`). What holds of quiet steps and is kept by such calls holds of all
expressions.
-/

namespace InstallScript

section

variable {η α : Type}

/-! ## Calls of the host -/

theorem Context.foldl_addWarning_scopes (remarks : List Remark) (c : Context) :
    (remarks.foldl (fun c x => c.addWarning x.message x.span x.code) c).scopes = c.scopes := by
  induction remarks generalizing c with
  | nil => rfl
  | cons x remarks ih => exact ih (c.addWarning x.message x.span x.code)

/-- A call of the host leaves the variables alone. -/
theorem World.call_scopes (w : World η) (host : Host η) (f : FunctionSpec) (arguments : Arguments)
    (span : Span) : (w.call host f arguments span).2.context.scopes = w.context.scopes :=
  Context.foldl_addWarning_scopes _ _

/-- A call of the host may cancel the run, and does not undo that. -/
theorem World.call_cancelled {w : World η} {host : Host η} {f : FunctionSpec}
    {arguments : Arguments} {span : Span}
    (open' : (w.call host f arguments span).2.cancelled = none) : w.cancelled = none := by
  dsimp only [World.call, World.endCall] at open'
  split at open'
  · cases open'
  · exact open'

/-! ## Quiet steps -/

/-- Two worlds with the same variables, host and calls, cancelled alike. -/
structure World.Rests (w v : World η) : Prop where
  scopes : v.context.scopes = w.context.scopes
  host : v.host = w.host
  cancelled : v.cancelled = w.cancelled
  calls : v.calls = w.calls

theorem World.Rests.refl (w : World η) : w.Rests w := ⟨rfl, rfl, rfl, rfl⟩

theorem World.Rests.trans {w v u : World η} (first : w.Rests v) (second : v.Rests u) : w.Rests u :=
  ⟨second.scopes.trans first.scopes, second.host.trans first.host,
    second.cancelled.trans first.cancelled, second.calls.trans first.calls⟩

/-- A computation that comes to an end quietly. -/
inductive Course.Rests (w : World η) : Course (World η) α → Prop
  | done {a : α} {v : World η} (rests : w.Rests v) : Rests w (.done a v)
  | exit {why : Exit} {v : World η} (rests : w.Rests v) : Rests w (.exit why v)

namespace Course.Rests

variable {β : Type} {w : World η} {c : Course (World η) α}

theorem trans {v : World η} (first : w.Rests v) (rests : c.Rests v) : c.Rests w := by
  cases rests with
  | done same => exact .done (first.trans same)
  | exit same => exact .exit (first.trans same)

theorem andThen {f : α → World η → Course (World η) β} (rests : c.Rests w)
    (next : ∀ a v, (f a v).Rests v) : (c.andThen f).Rests w := by
  cases rests with
  | done same => exact trans same (next _ _)
  | exit same => exact .exit same

/-- A contract that allows all ends is kept. -/
theorem meets {k : Contract (World η)} {post : α → World η → Prop} (rests : c.Rests w)
    (exits : ∀ why v, w.Rests v → k.exits why v) (done : ∀ a v, w.Rests v → post a v) :
    c.Meets k post := by
  cases rests with
  | done same => exact done _ _ same
  | exit same => exact exits _ _ same

end Course.Rests

namespace Run

theorem checkCancelled_rests (w : World η) : (checkCancelled w).Rests w := by
  unfold checkCancelled
  split
  · exact .exit (.refl w)
  · exact .done (.refl w)

theorem readVariable_rests {span : Span} {name : String} (w : World η) :
    (readVariable span name w).Rests w := by
  unfold readVariable
  split
  · exact .done (.refl w)
  · exact .exit (.refl w)

theorem checkResult_rests {f : FunctionSpec} {span : Span} {result : Option Value} (w : World η) :
    (checkResult f span result w).Rests w := by
  unfold checkResult
  split
  · split
    · exact .done (.refl w)
    · exact .exit (.refl w)
  · exact .exit (.refl w)

theorem handleFailure_rests {f : FunctionSpec} {span : Span} {message : String} (w : World η) :
    (handleFailure f span message w).Rests w := by
  unfold handleFailure
  split
  · exact .exit ⟨rfl, rfl, rfl, rfl⟩
  · exact .done ⟨rfl, rfl, rfl, rfl⟩

theorem takeReply_rests {f : FunctionSpec} {span : Span} {p : Prompt} {r : Resumption}
    (w : World η) : (takeReply f span p r w).Rests w := by
  cases r with
  | leave why => exact .exit (.refl w)
  | reply reply =>
    cases reply with
    | abort => exact .exit (.refl w)
    | answer data =>
      refine (checkCancelled_rests w).andThen fun _ v => ?_
      cases p.accept (.answer data) with
      | ok value => exact checkResult_rests v
      | error reason => exact .exit (.refl v)

/-! ## Calls -/

/-- What a call of a script comes to. -/
inductive Calls (w : World η) : Course (World η) α → Prop
  /-- It is refused. -/
  | refused {c : Course (World η) α} (rests : c.Rests w) : Calls w c
  /-- The call of the host is over. -/
  | made {c : Course (World η) α} {v : World η} (scopes : v.context.scopes = w.context.scopes)
    (calls : v.calls.size = w.calls.size + 1) (rests : c.Rests v) : Calls w c
  /-- The call of the host waits for a reply. -/
  | asks {p : Prompt} {v : World η} {next : Resumption → World η → Course (World η) α}
    (scopes : v.context.scopes = w.context.scopes) (calls : v.calls.size = w.calls.size + 1)
    (rests : ∀ r t, (next r t).Rests t) : Calls w (.ask p v next)

theorem callWith_calls {setting : Setting η} {f : FunctionSpec} {span : Span} {args : List Value}
    {kwargs : List (String × Value)} (w : World η) :
    Calls w (callWith setting f span args kwargs w) := by
  unfold callWith
  cases f.bind args kwargs with
  | error fault => exact .refused (.exit (.refl w))
  | ok arguments =>
    show Calls w (invoke setting f span arguments w)
    have scopes := w.call_scopes setting.host f arguments span
    have calls : (w.call setting.host f arguments span).2.calls.size = w.calls.size + 1 :=
      Array.size_push _
    rw [invoke_apply]
    cases (w.call setting.host f arguments span).1 with
    | value data => exact .made scopes calls (checkResult_rests _)
    | failure message => exact .made scopes calls (handleFailure_rests _)
    | crash d => exact .made scopes calls (.exit (.refl _))
    | question p => exact .asks scopes calls fun r t => takeReply_rests t

end Run

end

end InstallScript
