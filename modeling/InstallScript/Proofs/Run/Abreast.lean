import InstallScript.Proofs.Run.Following
import InstallScript.Proofs.Run.History

/-!
Sessions of runs that go the same way. While one session waits at a question with a prepared answer,
the other one, which has not been asked, is ahead: it has settled what comes after the answer. The
two are abreast again once the answer is given (`Plays.abreast`), and then they show the same.
-/

namespace InstallScript

section

variable {η η' : Type} {l : Likeness η η'} {answers : Nat → Option Datum}

/-- Finishers that do the same to results and to worlds that are alike. -/
def Finisher.Alike (l : Likeness η η') (finisher : Finisher η) (finisher' : Finisher η') : Prop :=
  ∀ result w w', w.Like l w' →
    (finisher.effect result w).1 = (finisher'.effect result w').1 ∧
      (finisher.effect result w).2.Like l (finisher'.effect result w').2

namespace Session

/-- The second session is as far as the first one, or ahead of it while that one waits at a question
with a prepared answer. -/
inductive Abreast (l : Likeness η η') (answers : Nat → Option Datum) (s : Session η)
    (s' : Session η') : Prop
  | fresh {program : Action (World η) Unit} {program' : Action (World η') Unit}
    (phase : s.phase = .fresh program) (phase' : s'.phase = .fresh program')
    (like : s.world.Like l s'.world)
    (follows : Action.Follows l answers (fun _ => True) program program')
  | waiting {p : Prompt} {next : Resumption → World η → Course (World η) Unit}
    {next' : Resumption → World η' → Course (World η') Unit} (phase : s.phase = .waiting p next)
    (phase' : s'.phase = .waiting p next') (like : s.world.Like l s'.world)
    (unprepared : answers s.world.calls.size = none)
    (follows : ∀ r t t', t.Like l t' →
      (next r t).Follows l answers (fun _ => True) (next' r t'))
  | ahead {p : Prompt} {data : Datum} {next : Resumption → World η → Course (World η) Unit}
    {before : Session η'} {last : Option Prompt} {course : Course (World η') Unit}
    (phase : s.phase = .waiting p next) (prepared : answers s.world.calls.size = some data)
    (settled : s' = (before.settle last course).2)
    (follows : ∀ v, s.world.cancelled = none → p.accept (.answer data) = .ok v →
      (next (.reply (.answer data)) s.world).Follows l answers (fun _ => True) course)
  | finished {result : RunResult} (phase : s.phase = .finished result)
    (phase' : s'.phase = .finished result) (like : s.world.Like l s'.world)
  | broken {last last' : Option Prompt} {v : World η} {v' : World η'}
    (phase : s.phase = .broken last) (phase' : s'.phase = .broken last') (like : v.Like l v')
    (later : Aftermath s.finisher v s.world) (later' : Aftermath s'.finisher v' s'.world)

/-! ## One move -/

theorem resultOfExit_congr {w : World η} {w' : World η'} (same : w.context = w'.context)
    (why : Exit) : resultOfExit w why = resultOfExit w' why := by
  cases why <;> simp only [resultOfExit, resultOf, same]

theorem conclude_abreast (s : Session η) (s' : Session η')
    (alike : s.finisher.Alike l s'.finisher) (like : s.world.Like l s'.world)
    (result : RunResult) : (s.conclude result).2.Abreast l answers (s'.conclude result).2 := by
  have noted := like.note .info .runs ("script " ++ result.summary)
  obtain ⟨same, like'⟩ := alike (some result) _ _ noted
  rw [conclude, conclude, complete_snd, complete_snd]
  refine .finished rfl ?_ like'
  show Phase.finished _ = Phase.finished _
  rw [same]

theorem settle_of_ok {s : Session η} {last : Option Prompt} {why : Exit} {w : World η}
    {result : RunResult} (results : resultOfExit w why = .ok result) :
    s.settle last (.exit why w) = conclude { s with world := w } result := by
  simp only [settle, results]

theorem settle_of_error {s : Session η} {last : Option Prompt} {why : Exit} {w : World η}
    {d : Defect} (crashed : resultOfExit w why = .error d) :
    s.settle last (.exit why w) = (.raised d, { s with world := w, phase := .broken last }) := by
  simp only [settle, crashed]

theorem settle_abreast {s : Session η} {s' : Session η'} (alike : s.finisher.Alike l s'.finisher)
    {c : Course (World η) Unit} {c' : Course (World η') Unit}
    (follows : c.Follows l answers (fun _ => True) c') (last last' : Option Prompt) :
    (s.settle last c).2.Abreast l answers (s'.settle last' c').2 := by
  cases follows with
  | @done _ w w' _ like =>
    show (conclude { s with world := w } (resultOf w .success none none)).2.Abreast l answers
      (conclude { s' with world := w' } (resultOf w' .success none none)).2
    rw [show resultOf w .success none none = resultOf w' .success none none by
      simp only [resultOf, like.context]]
    exact conclude_abreast { s with world := w } { s' with world := w' } alike like _
  | @exit why w w' like =>
    have same := resultOfExit_congr like.context why
    cases results : resultOfExit w why with
    | ok result =>
      rw [settle_of_ok results, settle_of_ok (same.symm.trans results)]
      exact conclude_abreast { s with world := w } { s' with world := w' } alike like _
    | error d =>
      rw [settle_of_error results, settle_of_error (same.symm.trans results)]
      exact .broken rfl rfl like .refl .refl
  | ask like unprepared goesOn => exact .waiting rfl rfl like unprepared goesOn
  | answered prepared goesOn => exact .ahead rfl prepared rfl goesOn

/-- A session that has broken off stays so. -/
theorem Step.broken {s : Session η} {m : Move} {out : Report × Session η} (step : s.Step m out)
    {last : Option Prompt} (broken : s.phase = .broken last) :
    ∃ last', out.2.phase = .broken last' ∧
      ∀ v, Aftermath s.finisher v s.world → Aftermath out.2.finisher v out.2.world := by
  cases step with
  | started phase | told phase | dropped phase | kept phase => cases broken.symm.trans phase
  | cancelled reason => exact ⟨last, broken, fun _ later => later.cancelled reason⟩
  | refused | abandoned => exact ⟨last, broken, fun _ later => later⟩
  | lapsed => exact ⟨none, rfl, fun _ later => later.lapsed⟩

/-- The prepared answer to the open question. -/
def prepared? (answers : Nat → Option Datum) (s : Session η) : Option Datum :=
  match s.phase with
  | .waiting _ _ => answers s.world.calls.size
  | _ => none

theorem prepared?_of_isFinished {s : Session η} (ended : s.isFinished = true) :
    s.prepared? answers = none := by
  unfold isFinished at ended
  unfold prepared?
  split at ended
  · rename_i finished
    rw [finished]
  · cases ended

/-- The same move keeps sessions abreast, unless the open question has a prepared answer. -/
theorem Abreast.move {s : Session η} {s' : Session η'} (abreast : s.Abreast l answers s')
    (alike : s.finisher.Alike l s'.finisher) (unprepared : s.prepared? answers = none) (m : Move) :
    (s.move m).Abreast l answers (s'.move m) := by
  obtain ⟨world, phase, finisher⟩ := s
  obtain ⟨world', phase', finisher'⟩ := s'
  cases abreast with
  | @fresh program program' phase phase' like follows =>
    cases phase
    cases phase'
    cases m with
    | start => exact settle_abreast alike (follows _ _ like) none none
    | abort reason =>
      have same : resultOf world .aborted none (some reason) =
          resultOf world' .aborted none (some reason) := by
        simp only [resultOf, show world.context = world'.context from like.context]
      show (conclude ⟨world, .fresh program, finisher⟩ _).2.Abreast l answers
        (conclude ⟨world', .fresh program', finisher'⟩ _).2
      rw [same]
      exact conclude_abreast _ _ alike like _
    | resume | fail => exact .fresh rfl rfl like follows
    | cancel reason => exact .fresh rfl rfl (like.cancel reason) follows
  | waiting phase phase' like unprepared follows =>
    cases phase
    cases phase'
    cases m with
    | start => exact .waiting rfl rfl like unprepared follows
    | resume | abort | fail => exact settle_abreast alike (follows _ _ _ like) _ _
    | cancel reason => exact .waiting rfl rfl (like.cancel reason) unprepared follows
  | ahead phase prepared =>
    cases phase
    cases unprepared.symm.trans prepared
  | finished phase phase' like =>
    cases phase
    cases phase'
    cases m with
    | start | resume | abort | fail => exact .finished rfl rfl like
    | cancel reason => exact .finished rfl rfl (like.cancel reason)
  | broken phase phase' like later later' =>
    obtain ⟨last, broken, after⟩ := (step _ m).broken phase
    obtain ⟨last', broken', after'⟩ := (step _ m).broken phase'
    exact .broken broken broken' like (after _ later) (after' _ later')

/-! ## Histories -/

/-- The moves of a history in which questions with prepared answers are answered so, while the run
is not cancelled; and the same moves without these answers. -/
inductive Plays (answers : Nat → Option Datum) : Session η → List Move → List Move → Prop
  | nil {s : Session η} (unprepared : s.prepared? answers = none) : Plays answers s [] []
  | move {s : Session η} {m : Move} {moves moves' : List Move}
    (unprepared : s.prepared? answers = none) (rest : Plays answers (s.move m) moves moves') :
    Plays answers s (m :: moves) (m :: moves')
  | answer {s : Session η} {p : Prompt} {next : Resumption → World η → Course (World η) Unit}
    {data : Datum} {v : Value} {moves moves' : List Move} (waiting : s.phase = .waiting p next)
    (prepared : answers s.world.calls.size = some data) (open' : s.world.cancelled = none)
    (admits : p.accept (.answer data) = .ok v)
    (rest : Plays answers (s.move (.resume (.answer data))) moves moves') :
    Plays answers s (.resume (.answer data) :: moves) moves'

theorem Plays.unprepared {s : Session η} {moves moves' : List Move}
    (plays : Plays answers s moves moves') :
    (moves.foldl Session.move s).prepared? answers = none := by
  induction plays with
  | nil unprepared => exact unprepared
  | move _ _ ih => exact ih
  | answer _ _ _ _ _ ih => exact ih

/-- Without prepared answers every history may be played. -/
theorem Plays.of_none (s : Session η) (moves : List Move) :
    Plays (fun _ => none) s moves moves := by
  have unprepared (s : Session η) : s.prepared? (fun _ => none) = none := by
    unfold prepared?
    split <;> rfl
  induction moves generalizing s with
  | nil => exact .nil (unprepared s)
  | cons m moves ih => exact .move (unprepared s) (ih (s.move m))

/-- Sessions stay abreast while one of them is asked and answered as prepared. -/
theorem Plays.abreast {s : Session η} {moves moves' : List Move}
    (plays : Plays answers s moves moves') {s' : Session η'} (abreast : s.Abreast l answers s')
    (alike : s.finisher.Alike l s'.finisher) :
    (moves.foldl Session.move s).Abreast l answers (moves'.foldl Session.move s') := by
  induction plays generalizing s' with
  | nil => exact abreast
  | @move s m _ _ unprepared _ ih =>
    refine ih (abreast.move alike unprepared m) ?_
    rwa [(s.step m).finisher, (s'.step m).finisher]
  | @answer s p next data v _ _ waiting prepared open' admits _ ih =>
    have moved : s.move (.resume (.answer data)) =
        (s.settle (some p) (next (.reply (.answer data)) s.world)).2 := by
      show (s.resume (.answer data)).2 = _
      unfold resume
      rw [waiting]
    cases abreast with
    | @ahead _ data' _ before last course phase prepared' settled follows =>
      cases waiting.symm.trans phase
      cases prepared.symm.trans prepared'
      subst settled
      rw [settle_finisher] at alike
      refine ih ?_ ?_
      · rw [moved]
        exact settle_abreast alike (follows v open' admits) _ _
      · rwa [moved, settle_finisher, settle_finisher]
    | waiting _ _ _ unprepared => cases prepared.symm.trans unprepared
    | fresh phase | finished phase | broken phase => cases waiting.symm.trans phase

end Session

/-! ## What sessions show -/

/-- Two sessions show the same: the calls, what the run keeps track of, the open question and the
result. -/
structure Session.Same (s : Session η) (s' : Session η') : Prop where
  calls : s.world.calls = s'.world.calls
  result : s.result? = s'.result?
  broken : (∃ last, s.phase = .broken last) ↔ ∃ last, s'.phase = .broken last
  /-- A run that has broken off may be continued, once; the finisher may then act on its world. -/
  context : (∀ last, s.phase ≠ .broken last) → s.world.context = s'.world.context
  pending : (∀ last, s.phase ≠ .broken last) → s.pending = s'.pending

theorem Session.Abreast.same {s : Session η} {s' : Session η'} (abreast : s.Abreast l answers s')
    (unprepared : s.prepared? answers = none)
    (calls : (∃ last, s.phase = .broken last) → s.world.calls = s'.world.calls) : s.Same s' := by
  obtain ⟨world, phase, finisher⟩ := s
  obtain ⟨world', phase', finisher'⟩ := s'
  cases abreast with
  | ahead phase prepared =>
    cases phase
    cases unprepared.symm.trans prepared
  | fresh phase phase' like | waiting phase phase' like | finished phase phase' like =>
    cases phase
    cases phase'
    refine ⟨like.calls, rfl, iff_of_false ?_ ?_, fun _ => like.context, fun _ => rfl⟩
    · exact fun ⟨_, other⟩ => nomatch other
    · exact fun ⟨_, other⟩ => nomatch other
  | @broken last last' _ _ phase phase' =>
    cases phase
    cases phase'
    exact ⟨calls ⟨last, rfl⟩, rfl, ⟨fun _ => ⟨last', rfl⟩, fun _ => ⟨last, rfl⟩⟩,
      fun unbroken => absurd rfl (unbroken last), fun unbroken => absurd rfl (unbroken last)⟩

/-- What is so of worlds that are alike is so of the worlds of sessions abreast, also when the run has
broken off, if it is about something that neither cancellation nor a finisher without a result
touches. -/
theorem Session.Abreast.relates {s : Session η} {s' : Session η'} (abreast : s.Abreast l answers s')
    (unprepared : s.prepared? answers = none) {τ τ' : Type} (f : World η → τ) (f' : World η' → τ')
    (rel : τ → τ' → Prop) (alike : ∀ w w', w.Like l w' → rel (f w) (f' w'))
    (cancels : ∀ w reason, f { w with cancelled := some reason } = f w)
    (cancels' : ∀ w reason, f' { w with cancelled := some reason } = f' w)
    (lapses : ∀ w, f (s.finisher.effect none w).2 = f w)
    (lapses' : ∀ w, f' (s'.finisher.effect none w).2 = f' w) : rel (f s.world) (f' s'.world) := by
  cases abreast with
  | fresh _ _ like | waiting _ _ like | finished _ _ like => exact alike _ _ like
  | ahead phase prepared =>
    unfold prepared? at unprepared
    rw [phase] at unprepared
    cases unprepared.symm.trans prepared
  | broken _ _ like later later' =>
    rw [later.preserves f cancels lapses, later'.preserves f' cancels' lapses']
    exact alike _ _ like

/-- The calls of sessions abreast are the same. -/
theorem Session.Abreast.calls {s : Session η} {s' : Session η'} (abreast : s.Abreast l answers s')
    (unprepared : s.prepared? answers = none) (keeps : s.finisher.KeepsRun)
    (keeps' : s'.finisher.KeepsRun) : s.world.calls = s'.world.calls :=
  abreast.relates unprepared World.calls World.calls Eq (fun _ _ like => like.calls)
    (fun _ _ => rfl) (fun _ _ => rfl) (keeps.effect_calls none) (keeps'.effect_calls none)

/-- Under hosts that respond alike sessions are abreast from the start, and show the same after a
history and the same moves without the prepared answers. -/
theorem Session.Plays.same {setting : Setting η} {host : Host η'}
    (hosts : setting.host.Follows l answers host) {script : Block} {world : World η}
    {world' : World η'} (like : world.Like l world') {finisher : Finisher η}
    {finisher' : Finisher η'} (alike : finisher.Alike l finisher') (keeps : finisher.KeepsRun)
    (keeps' : finisher'.KeepsRun) {moves moves' : List Session.Move}
    (plays : Plays answers (ofScript setting script world finisher) moves moves') :
    (moves.foldl Session.move (ofScript setting script world finisher)).Same
      (moves'.foldl Session.move (ofScript (setting.withHost host) script world' finisher')) := by
  have start : (ofScript setting script world finisher).Abreast l answers
      (ofScript (setting.withHost host) script world' finisher') :=
    .fresh rfl rfl like (Run.executeAll_follows hosts script.statements)
  have abreast := plays.abreast start alike
  refine abreast.same plays.unprepared fun _ => abreast.calls plays.unprepared ?_ ?_
  · rw [moves_finisher]
    exact keeps
  · rw [moves_finisher]
    exact keeps'

end

end InstallScript
