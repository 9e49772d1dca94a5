import InstallScript.Proofs.Run.Contract
import InstallScript.Proofs.Run.Moves

/-!
Contracts over the history of a session. What a run keeps while it is driven by itself is carried
from move to move (`Session.moves_uphold`): a session that waits goes on under the contract, and one
that is over has the result of an exit that the contract allows, as its finisher leaves it.
-/

namespace InstallScript

variable {η : Type}

/-- A contract that cancellation from outside does not touch. -/
structure Contract.Lasts (k : Contract (World η)) (inv : World η → Prop) : Prop where
  cancelled : ∀ {w : World η} (reason : String), inv w → inv { w with cancelled := some reason }
  waiting : ∀ {p : Prompt} {w : World η} (reason : String), k.waits p w →
    k.waits p { w with cancelled := some reason }
  resumes : ∀ {w : World η} {r : Resumption} {t : World η} (reason : String),
    k.resumes { w with cancelled := some reason } r t → k.resumes w r t
  /-- A run may be cancelled before it starts, as a waiting run may be. -/
  dropped : ∀ {w : World η} {reason : String}, inv w →
    (∀ v, k.resumes v (.leave (.aborted reason)) v) → k.exits (.aborted reason) w

/-- What may become of the world when the run is over. -/
inductive Session.Aftermath (finisher : Finisher η) (w : World η) : World η → Prop
  | refl : Aftermath finisher w w
  | cancelled {v : World η} (later : Aftermath finisher w v) (reason : String) :
    Aftermath finisher w { v with cancelled := some reason }
  /-- A run that had broken off is continued. -/
  | lapsed {v : World η} (later : Aftermath finisher w v) :
    Aftermath finisher w (finisher.effect none v).2

/-- What neither cancellation nor the finisher touches stays as it is. -/
theorem Session.Aftermath.preserves {finisher : Finisher η} {w v : World η}
    (later : Aftermath finisher w v) {τ : Type} (f : World η → τ)
    (cancels : ∀ w reason, f { w with cancelled := some reason } = f w)
    (lapses : ∀ w, f (finisher.effect none w).2 = f w) : f v = f w := by
  induction later with
  | refl => rfl
  | cancelled _ reason ih => exact (cancels _ reason).trans ih
  | lapsed _ ih => exact (lapses _).trans ih

/-- What cancellation and the finisher keep holds after all of it. -/
theorem Session.Aftermath.keeps {finisher : Finisher η} {w v : World η}
    (later : Aftermath finisher w v) {P : World η → Prop}
    (cancels : ∀ w cancelled, P w → P { w with cancelled })
    (lapses : ∀ w, P w → P (finisher.effect none w).2) (holds : P w) : P v := by
  induction later with
  | refl => exact holds
  | cancelled _ reason ih => exact cancels _ _ ih
  | lapsed _ ih => exact lapses _ ih

/-- The run is over: it has come to an exit that the contract allows, and its result is that of the
exit as the finisher leaves it. The world, too, is as the finisher leaves it, cancellation aside. -/
inductive Session.Over (k : Contract (World η)) (finisher : Finisher η) (result : RunResult)
    (world : World η) : Prop
  | intro {why : Exit} {v noted : World η} {before : RunResult} {cancelled : Option String}
    (exits : k.exits why v)
    (results : resultOfExit v why = .ok before)
    (notes : noted = v.note .info .runs ("script " ++ before.summary))
    (acted : result = (finisher.effect (some before) noted).1.getD before)
    (later : world = { (finisher.effect (some before) noted).2 with cancelled })

/-- What the phase of a session promises under a contract. -/
def Phase.Upholds (k : Contract (World η)) (inv : World η → Prop) (finisher : Finisher η)
    (w : World η) : Phase η → Prop
  | .fresh program => inv w ∧ Action.Meets k inv program fun _ v => k.exits .returned v
  | .waiting p next => k.waits p w ∧ ∀ r t, k.resumes w r t →
    (next r t).Meets k fun _ v => k.exits .returned v
  | .finished result => Session.Over k finisher result w
  | .broken _ => ∃ d v, k.exits (.crashed d) v ∧ Session.Aftermath finisher v w

namespace Session

theorem result?_eq_some_iff {s : Session η} {result : RunResult} :
    s.result? = some result ↔ s.phase = .finished result := by
  unfold result?
  cases s.phase <;> simp

/-- A session keeps a contract. -/
def Upholds (k : Contract (World η)) (inv : World η → Prop) (s : Session η) : Prop :=
  s.phase.Upholds k inv s.finisher s.world

section

variable {k : Contract (World η)} {inv : World η → Prop} {s : Session η}

theorem Upholds.waiting {p : Prompt} {next : Resumption → World η → Course (World η) Unit}
    (upholds : s.Upholds k inv) (waits : s.phase = .waiting p next) :
    k.waits p s.world ∧ ∀ r t, k.resumes s.world r t →
      (next r t).Meets k fun _ v => k.exits .returned v := by
  rwa [Upholds, waits] at upholds

theorem Upholds.fresh {program : Action (World η) Unit} (upholds : s.Upholds k inv)
    (fresh : s.phase = .fresh program) :
    inv s.world ∧ Action.Meets k inv program fun _ v => k.exits .returned v := by
  rwa [Upholds, fresh] at upholds

theorem Upholds.finished {result : RunResult} (upholds : s.Upholds k inv)
    (ended : s.phase = .finished result) : Over k s.finisher result s.world := by
  rwa [Upholds, ended] at upholds

theorem Upholds.broken {last : Option Prompt} (upholds : s.Upholds k inv)
    (broken : s.phase = .broken last) :
    ∃ d v, k.exits (.crashed d) v ∧ Aftermath s.finisher v s.world := by
  rwa [Upholds, broken] at upholds

/-- What holds whenever a run waits or ends, and is kept by log records, by cancellation and by the
finisher, holds in the world of the session. -/
theorem Upholds.holds {P : World η → Prop} (upholds : s.Upholds k inv)
    (starts : ∀ w, inv w → P w) (waits : ∀ p w, k.waits p w → P w)
    (exits : ∀ why w, k.exits why w → P w)
    (notes : ∀ w message, P w → P (w.note .info .runs message))
    (cancels : ∀ w cancelled, P w → P { w with cancelled })
    (finishes : ∀ result w, P w → P (s.finisher.effect result w).2) : P s.world := by
  cases phase : s.phase with
  | fresh program => exact starts _ (upholds.fresh phase).1
  | waiting p next => exact waits _ _ (upholds.waiting phase).1
  | finished result =>
    obtain ⟨ended, -, noted, -, later⟩ := upholds.finished phase
    rw [later, noted]
    exact cancels _ _ (finishes _ _ (notes _ _ (exits _ _ ended)))
  | broken last =>
    obtain ⟨d, v, ended, later⟩ := upholds.broken phase
    exact later.keeps cancels (finishes none) (exits _ _ ended)

/-! ## One move -/

theorem conclude_upholds {why : Exit} {before : RunResult} (exits : k.exits why s.world)
    (results : resultOfExit s.world why = .ok before) : (s.conclude before).2.Upholds k inv := by
  rw [conclude, complete_snd]
  exact .intro exits results rfl rfl rfl

theorem settle_upholds {last : Option Prompt} {course : Course (World η) Unit}
    (meets : course.Meets k fun _ v => k.exits .returned v) :
    (s.settle last course).2.Upholds k inv := by
  cases course with
  | done _ w =>
    have exits : k.exits .returned w := meets
    exact conclude_upholds (s := { s with world := w }) exits rfl
  | ask p w next => exact meets
  | exit why w =>
    unfold settle
    dsimp only
    split
    · rename_i before results
      exact conclude_upholds (s := { s with world := w }) meets results
    · rename_i d crashed
      cases why with
      | crashed d => exact ⟨d, w, meets, .refl⟩
      | _ => cases crashed

theorem cancel_upholds (lasts : k.Lasts inv) (upholds : s.Upholds k inv) (reason : String) :
    (s.cancel reason).Upholds k inv := by
  obtain ⟨world, phase, finisher⟩ := s
  cases phase with
  | fresh program => exact ⟨lasts.cancelled reason upholds.1, upholds.2⟩
  | waiting p next =>
    refine ⟨lasts.waiting reason upholds.1, fun r t resumes => ?_⟩
    exact upholds.2 r t (lasts.resumes reason resumes)
  | finished result =>
    have ended : Over k finisher result world := upholds
    obtain ⟨exits, results, notes, acted, rfl⟩ := ended
    exact .intro exits results notes acted rfl
  | broken last =>
    obtain ⟨d, v, exits, later⟩ := upholds
    exact ⟨d, v, exits, later.cancelled reason⟩

/-- A move keeps the contract, if the contract allows what the move tells a waiting run. -/
theorem Step.upholds {m : Move} {out : Report × Session η} (step : s.Step m out)
    (lasts : k.Lasts inv) (tells : ∀ r, m.told? = some r → ∀ w, k.resumes w r w)
    (upholds : s.Upholds k inv) : out.2.Upholds k inv := by
  cases step with
  | started fresh =>
    obtain ⟨before, meets⟩ := upholds.fresh fresh
    exact settle_upholds (meets s.world before)
  | told waiting told =>
    obtain ⟨-, meets⟩ := upholds.waiting waiting
    exact settle_upholds (meets _ _ (tells _ told s.world))
  | dropped fresh reason =>
    obtain ⟨before, -⟩ := upholds.fresh fresh
    have exits : k.exits (.aborted reason) s.world := lasts.dropped before (tells _ rfl)
    exact conclude_upholds exits rfl
  | kept | refused | abandoned => exact upholds
  | cancelled reason => exact cancel_upholds lasts upholds reason
  | lapsed broken =>
    obtain ⟨d, v, exits, later⟩ := upholds.broken broken
    exact ⟨d, v, exits, later.lapsed⟩

/-! ## What a move gives -/

theorem conclude_report {before : RunResult}
    (quiet : ∀ result w, ∃ out, s.finisher (some result) w = .ok out) :
    ∃ result, (s.conclude before).1 = .result result := by
  rcases complete_fst { s with world := s.world.note .info .runs ("script " ++ before.summary) }
    before with gives | ⟨d, breaks, -⟩
  · exact gives
  · obtain ⟨out, acts⟩ := quiet before (s.world.note .info .runs ("script " ++ before.summary))
    cases acts.symm.trans breaks

theorem settle_report {last : Option Prompt} {course : Course (World η) Unit}
    (meets : course.Meets k fun _ v => k.exits .returned v)
    (quiet : ∀ result w, ∃ out, s.finisher (some result) w = .ok out) :
    (∃ p, (s.settle last course).1 = .prompt p) ∨
      (∃ result, (s.settle last course).1 = .result result) ∨
      ∃ d v, (s.settle last course).1 = .raised d ∧ k.exits (.crashed d) v := by
  cases course with
  | done _ w => exact .inr (.inl (conclude_report quiet))
  | ask p w next => exact .inl ⟨p, rfl⟩
  | exit why w =>
    unfold settle
    dsimp only
    split
    · exact .inr (.inl (conclude_report quiet))
    · rename_i d crashed
      cases why with
      | crashed d' =>
        cases crashed
        exact .inr (.inr ⟨d, w, rfl, meets⟩)
      | _ => cases crashed

/-- A run that has broken off permits nothing but its cancellation. -/
theorem Permits.unbroken {m : Move} (permits : s.Permits m)
    (notCancel : ∀ reason, m ≠ .cancel reason) (last : Option Prompt) :
    s.phase ≠ .broken last := by
  intro broken
  cases m with
  | start =>
    obtain ⟨program, fresh⟩ := permits
    cases broken.symm.trans fresh
  | resume reply =>
    obtain ⟨p, next, waiting⟩ := permits
    cases broken.symm.trans waiting
  | abort reason => exact permits last broken
  | fail error =>
    obtain ⟨p, next, waiting⟩ := permits
    cases broken.symm.trans waiting
  | cancel reason => exact notCancel reason rfl

/-- A move in place gives a question, a result or a defect that the contract allows. -/
theorem Step.report {m : Move} {out : Report × Session η} (step : s.Step m out)
    (tells : ∀ r, m.told? = some r → ∀ w, k.resumes w r w) (upholds : s.Upholds k inv)
    (quiet : ∀ result w, ∃ out, s.finisher (some result) w = .ok out) (permits : s.Permits m)
    (notCancel : ∀ reason, m ≠ .cancel reason) :
    (∃ p, out.1 = .prompt p) ∨ (∃ result, out.1 = .result result) ∨
      ∃ d v, out.1 = .raised d ∧ k.exits (.crashed d) v := by
  cases step with
  | started fresh =>
    obtain ⟨before, meets⟩ := upholds.fresh fresh
    exact settle_report (meets s.world before) quiet
  | told waiting told =>
    obtain ⟨-, meets⟩ := upholds.waiting waiting
    exact settle_report (meets _ _ (tells _ told s.world)) quiet
  | dropped => exact .inr (.inl (conclude_report quiet))
  | kept => exact .inr (.inl ⟨_, rfl⟩)
  | cancelled reason => exact absurd rfl (notCancel reason)
  | refused outOfPlace => exact absurd permits outOfPlace
  | abandoned broken | lapsed broken => exact absurd broken (permits.unbroken notCancel _)

/-! ## Histories -/

theorem conclude_finisher (s : Session η) (before : RunResult) :
    (s.conclude before).2.finisher = s.finisher := by
  rw [conclude, complete_snd]

theorem settle_finisher (s : Session η) (last : Option Prompt) (course : Course (World η) Unit) :
    (s.settle last course).2.finisher = s.finisher := by
  unfold settle
  split
  · exact conclude_finisher _ _
  · rfl
  · split
    · exact conclude_finisher _ _
    · rfl

theorem Step.finisher {m : Move} {out : Report × Session η} (step : s.Step m out) :
    out.2.finisher = s.finisher := by
  cases step with
  | started | told => exact settle_finisher _ _ _
  | dropped => exact conclude_finisher _ _
  | kept | cancelled | refused | abandoned | lapsed => rfl

theorem moves_finisher (s : Session η) (moves : List Move) :
    (moves.foldl Session.move s).finisher = s.finisher := by
  induction moves generalizing s with
  | nil => rfl
  | cons m moves ih => exact (ih (s.move m)).trans (s.step m).finisher

/-- The contract is kept over a history whose moves tell waiting runs only what it allows. -/
theorem moves_uphold (lasts : k.Lasts inv) {moves : List Move}
    (tells : ∀ m ∈ moves, ∀ r, m.told? = some r → ∀ w, k.resumes w r w)
    (upholds : s.Upholds k inv) : (moves.foldl Session.move s).Upholds k inv := by
  induction moves generalizing s with
  | nil => exact upholds
  | cons m moves ih =>
    refine ih (fun m' member => tells m' (List.mem_cons_of_mem _ member)) ?_
    exact (s.step m).upholds lasts (tells m List.mem_cons_self) upholds

/-- A result is that of an exit, as the finisher leaves it. -/
theorem over_of_finished (setting : Setting η) (script : Block) (world : World η)
    (finisher : Finisher η) (moves : List Move) {result : RunResult}
    (ended : (moves.foldl Session.move (ofScript setting script world finisher)).phase =
      .finished result) : Over Contract.any finisher result
        (moves.foldl Session.move (ofScript setting script world finisher)).world := by
  have lasts : (Contract.any : Contract (World η)).Lasts fun _ => True :=
    ⟨fun _ _ => trivial, fun _ _ => trivial, fun _ _ => trivial, fun _ _ => trivial⟩
  have start : (ofScript setting script world finisher).Upholds Contract.any fun _ => True :=
    ⟨trivial, fun w _ => Course.meets_any _⟩
  have stands := (moves_uphold lasts (fun _ _ _ _ _ => trivial) start).finished ended
  rwa [moves_finisher] at stands

end

end Session

end InstallScript
