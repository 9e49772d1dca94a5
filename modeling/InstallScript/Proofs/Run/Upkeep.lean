import InstallScript.Proofs.Run.Congruent

/-!
Runs under a contract. Besides calling the host, a script computes, reads and changes variables,
opens and closes frames, and ends; no contract has to look at trees for that. A contract that allows
these steps (`Run.Housekeeping`) and is kept by the calls of a tree (`Run.Upkeep`) is kept by the
whole tree.
-/

namespace InstallScript

namespace Run

section

variable {η α β : Type} {k : Contract (World η)} {inv : World η → Prop}

/-- What a contract has to allow for the steps of a run that do not call the host: they keep an
invariant, which is enough for any usual end, and closing a frame changes nothing about an end. -/
structure Housekeeping (k : Contract (World η)) (inv : World η → Prop) : Prop where
  scopes : ∀ {w : World η} (f : Scopes → Scopes), inv w → inv (w.mapScopes f)
  popped : ∀ {why : Exit} {w : World η}, k.exits why w → k.exits why (w.mapScopes (·.pop))
  ends : ∀ {why : Exit} {w : World η}, why.Usual → inv w → k.exits why w

/-- A part of a run that keeps the contract and the invariant and gives values of some kind. -/
def Upholds (k : Contract (World η)) (inv : World η → Prop) (m : Step η α) (P : α → Prop) : Prop :=
  Action.Meets k inv m fun a w => P a ∧ inv w

theorem Upholds.pure {a : α} {P : α → Prop} (holds : P a) :
    Upholds k inv (Pure.pure a : Step η α) P :=
  Action.Meets.pure fun _ before => ⟨holds, before⟩

theorem Upholds.bind {m : Step η α} {next : α → Step η β} {P : α → Prop} {Q : β → Prop}
    (first : Upholds k inv m P) (second : ∀ a, P a → Upholds k inv (next a) Q) :
    Upholds k inv (m >>= next) Q :=
  Action.Meets.bind first fun a w both => second a both.1 w both.2

namespace Housekeeping

variable (house : Housekeeping k inv)

include house

theorem leave {why : Exit} {P : α → Prop} (usual : why.Usual) :
    Upholds k inv (Action.leave why : Step η α) P :=
  Action.Meets.leave fun _ => house.ends usual

theorem fail {fault : Fault} {span : Span} {P : α → Prop} (aside : fault.AsideFromCalls) :
    Upholds k inv (Action.fail fault span : Step η α) P :=
  house.leave (.failed aside)

/-! ## Single steps -/

theorem checkCancelled_upholds : Upholds k inv (checkCancelled : Step η Unit) fun _ => True := by
  intro w before
  unfold checkCancelled
  split
  · exact house.ends (.aborted _) before
  · exact ⟨trivial, before⟩

theorem readVariable_upholds {span : Span} {name : String} :
    Upholds k inv (readVariable span name : Step η Value) fun _ => True := by
  intro w before
  unfold readVariable
  split
  · exact ⟨trivial, before⟩
  · exact house.fail (.of_code "E401" rfl) w before

theorem writeVariable_upholds {span : Span} {mode : AssignMode} {name : String} {value : Value} :
    Upholds k inv (writeVariable span mode name value : Step η Unit) fun _ => True := by
  intro w before
  unfold writeVariable
  split
  · exact ⟨trivial, house.scopes _ before⟩
  · split
    · exact ⟨trivial, house.scopes _ before⟩
    · exact house.fail (.of_code "E401" rfl) w before

theorem inFrame_upholds {name : String} {body : Step η α} {P : α → Prop}
    (keeps : Upholds k inv body P) : Upholds k inv (inFrame name body) P :=
  Action.Meets.within (fun _ => house.scopes _) keeps (fun _ _ => house.popped)
    fun _ _ both => ⟨both.1, house.scopes _ both.2⟩

theorem checkResult_upholds {f : FunctionSpec} {span : Span} {result : Option Value} :
    Upholds k inv (checkResult f span result : Step η Value) fun _ => True := by
  unfold checkResult
  split
  · split
    · exact .pure trivial
    · exact house.fail (.of_code "E406" rfl)
  · exact house.fail (.of_code "E406" rfl)

theorem takeReply_upholds {f : FunctionSpec} {span : Span} {p : Prompt} {r : Resumption}
    {w : World η} (before : inv w) (leaves : ∀ why, r = .leave why → k.exits why w) :
    ((takeReply f span p r : Step η Value) w).Meets k fun _ w => True ∧ inv w := by
  cases r with
  | leave why => exact leaves why rfl
  | reply reply =>
    cases reply with
    | abort => exact house.leave (.aborted _) w before
    | answer data =>
      refine Upholds.bind house.checkCancelled_upholds (fun _ _ => ?_) w before
      split
      · exact house.checkResult_upholds
      · exact house.fail (.of_code "E405" rfl)

end Housekeeping

/-- What has to hold behind a call of a host function, by what has come of it. -/
def Returns (k : Contract (World η)) (inv : World η → Prop) (f : FunctionSpec) (span : Span)
    (w : World η) : Outcome → Prop
  | .value _ => inv w
  | .failure message => ((handleFailure f span message : Step η Value) w).Meets k
      fun _ w => True ∧ inv w
  | .crash defect => k.exits (.crashed defect) w
  | .question p => k.waits p w ∧ ∀ r t, k.resumes w r t →
      inv t ∧ ∀ why, r = .leave why → k.exits why t

/-- A call of a host function. -/
theorem Housekeeping.invoke_upholds (house : Housekeeping k inv) {setting : Setting η}
    {f : FunctionSpec} {span : Span} {arguments : Arguments}
    (returns : ∀ w, inv w → Returns k inv f span (w.call setting.host f arguments span).2
      (w.call setting.host f arguments span).1) :
    Upholds k inv (invoke setting f span arguments) fun _ => True := by
  intro w before
  have after := returns w before
  rw [invoke_apply]
  cases outcome : (w.call setting.host f arguments span).1 with
  | value data =>
    rw [outcome] at after
    exact house.checkResult_upholds _ after
  | failure message =>
    rw [outcome] at after
    exact after
  | crash defect =>
    rw [outcome] at after
    exact after
  | question p =>
    rw [outcome] at after
    refine ⟨after.1, fun r t resumes => ?_⟩
    obtain ⟨before, leaves⟩ := after.2 r t resumes
    exact house.takeReply_upholds before leaves

/-- What a call gives whose host function has failed. Neither the host nor the calls so far change
any more. -/
theorem handleFailure_upholds {f : FunctionSpec} {span : Span} {message : String} {w : World η}
    (fatal : ∀ v : World η, v.calls = w.calls → v.host = w.host → f.failure = .fatal →
      k.exits (.failed ⟨.fatalFailure f.name message, some span, none⟩) v)
    (recovers : ∀ v : World η, v.calls = w.calls → v.host = w.host → f.failure = .recoverable →
      inv v) :
    ((handleFailure f span message : Step η Value) w).Meets k fun _ w => True ∧ inv w := by
  unfold handleFailure
  split
  · rename_i mode
    exact fatal _ rfl rfl mode
  · rename_i mode
    exact ⟨trivial, recovers _ rfl rfl mode⟩

end

/-! ## Trees -/

/-- What the operators and the calls of a tree have to do so that the tree keeps a contract: an
operator that overflows ends the run as the contract allows, and a call in the scope either finds
its function and keeps the contract with the values that its arguments may have, or ends so as
well. -/
structure Upkeep {η : Type} (setting : Setting η) (k : Contract (World η)) (inv : World η → Prop)
    (scope : Call → Prop) : Prop extends Housekeeping k inv where
  overflow : ∀ {operator a b cause w}, Value.apply operator a b = .error (.overflow cause) → inv w →
    k.exits (.crashed (.overflow cause)) w
  unknown : ∀ {c w}, scope c → setting.catalog.get? c.name = none → inv w →
    k.exits (.failed ⟨.unknownFunction c.name, some c.span, none⟩) w
  call : ∀ {c f args kwargs}, scope c → setting.catalog.get? c.name = some f →
    c.MayHave args kwargs → Upholds k inv (callWith setting f c.span args kwargs) fun _ => True

section

variable {η : Type} {setting : Setting η} {k : Contract (World η)} {inv : World η → Prop}
  {scope : Call → Prop}

/-- Keeping a contract is a relation of a run to itself. -/
theorem Upkeep.congruent (upkeep : Upkeep setting k inv scope) :
    Congruent setting setting.host scope fun P m _ => Upholds k inv m P where
  pure := .pure
  bind := .bind
  leave := upkeep.leave
  overflow overflows := Action.Meets.leave fun _ => upkeep.overflow overflows
  checkCancelled := upkeep.checkCancelled_upholds
  readVariable := upkeep.readVariable_upholds
  writeVariable := upkeep.writeVariable_upholds
  inFrame := upkeep.inFrame_upholds
  unknown inScope missing := Action.Meets.leave fun _ => upkeep.unknown inScope missing
  call := upkeep.call

/-- A tree whose calls keep a contract keeps it. -/
theorem executeAll_upholds (upkeep : Upkeep setting k inv scope) (ss : List Stmt)
    (within : Within scope (walkStmts ss)) :
    Upholds k inv (executeAll setting ss) fun _ => True :=
  upkeep.congruent.executeAll ss within

end

end Run

end InstallScript
