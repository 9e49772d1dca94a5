import InstallScript.Proofs.Run.Protocol

/-!
Runs under another finisher. A history goes the same way under two finishers until the run comes to
a result, which each of them changes in its own way, or until a reply is given to a run that has
broken off (`Session.alongside`). So a session does not show what its finisher does with results
that it does not come to, nor without a result.
-/

namespace InstallScript

variable {η : Type}

namespace Session

/-- How a move can go under two finishers: it comes to the same without a new result; it comes to a
result, which each of them changes; or it is a reply to a run that has broken off, which asks both
of them without a result. -/
inductive Alongside (s : Session η) (other : Finisher η) (m : Move) : Prop
  | same (report : { s with finisher := other }.report m = s.report m)
    (move : { s with finisher := other }.move m = { s.move m with finisher := other })
    (result : (s.move m).result? = s.result?)
  | concluded {before : RunResult} {w : World η}
    (eq : (s.report m, s.move m) = complete { s with world := w } before)
    (eq' : ({ s with finisher := other }.report m, { s with finisher := other }.move m) =
      complete { s with world := w, finisher := other } before)
  | lapsed {p : Prompt} {reply : Reply} (broken : s.phase = .broken (some p))
    (told : m = .resume reply)

theorem settle_alongside (s : Session η) (other : Finisher η) (last : Option Prompt)
    (course : Course (World η) Unit) :
    (settle { s with finisher := other } last course =
        ((s.settle last course).1, { (s.settle last course).2 with finisher := other }) ∧
      (s.settle last course).2.result? = none) ∨
    ∃ before w, s.settle last course = complete { s with world := w } before ∧
      settle { s with finisher := other } last course =
        complete { s with world := w, finisher := other } before := by
  cases course with
  | done _ w => exact .inr ⟨_, _, rfl, rfl⟩
  | ask p w next => exact .inl ⟨rfl, rfl⟩
  | exit why w =>
    cases results : resultOfExit w why with
    | ok result =>
      rw [settle_of_ok results, settle_of_ok results]
      exact .inr ⟨_, _, rfl, rfl⟩
    | error d =>
      rw [settle_of_error results, settle_of_error results]
      exact .inl ⟨rfl, rfl⟩

theorem alongside (s : Session η) (other : Finisher η) (m : Move) : s.Alongside other m := by
  obtain ⟨world, phase, finisher⟩ := s
  have settles (last : Option Prompt) (course : Course (World η) Unit)
      (noResult : result? ⟨world, phase, finisher⟩ = none)
      (eq : (report ⟨world, phase, finisher⟩ m, move ⟨world, phase, finisher⟩ m) =
        settle ⟨world, phase, finisher⟩ last course)
      (eq' : (report ⟨world, phase, other⟩ m, move ⟨world, phase, other⟩ m) =
        settle ⟨world, phase, other⟩ last course) :
      Alongside ⟨world, phase, finisher⟩ other m := by
    rcases settle_alongside ⟨world, phase, finisher⟩ other last course with
      ⟨same, stays⟩ | ⟨before, w, concludes, concludes'⟩
    · rw [same, ← eq] at eq'
      rw [← eq] at stays
      obtain ⟨report, move⟩ := Prod.mk.inj eq'
      exact .same report move (stays.trans noResult.symm)
    · exact .concluded (eq.trans concludes) (eq'.trans concludes')
  cases phase with
  | fresh program =>
    cases m with
    | start => exact settles none _ rfl rfl rfl
    | abort reason => exact .concluded rfl rfl
    | resume | fail | cancel => exact .same rfl rfl rfl
  | waiting p next =>
    cases m with
    | resume | abort | fail => exact settles (some p) _ rfl rfl rfl
    | start | cancel => exact .same rfl rfl rfl
  | finished result => cases m <;> exact .same rfl rfl rfl
  | broken last =>
    cases m with
    | resume reply =>
      cases last with
      | none => exact .same rfl rfl rfl
      | some p => exact .lapsed rfl rfl
    | fail error => cases last <;> exact .same rfl rfl rfl
    | start | abort | cancel => exact .same rfl rfl rfl

/-! ## Runs before their finisher has acted -/

/-- The same session with a finisher that does nothing. -/
def unsettled (s : Session η) : Session η := { s with finisher := Finisher.idle }

/-- A session and one whose finisher does nothing: they are the same and have no result, or both runs
are over, and the finisher has acted on what the other one still shows, cancellation aside. -/
inductive Settles (s s' : Session η) : Prop
  | before (noResult : s.result? = none) (eq : s' = s.unsettled)
  | after {result : RunResult} {w : World η} {cancelled cancelled' : Option String}
    (ended : s'.phase = .finished result) (world : s'.world = { w with cancelled })
    (settled : s.phase = .finished ((s.finisher.effect (some result) w).1.getD result))
    (world' : s.world = { (s.finisher.effect (some result) w).2 with cancelled := cancelled' })

/-- One move. -/
theorem Settles.move {s s' : Session η} (settles : s.Settles s')
    (needs : s.finisher.NeedsResult) (m : Move) : (s.move m).Settles (s'.move m) := by
  cases settles with
  | before noResult eq =>
    subst eq
    cases s.alongside Finisher.idle m with
    | same _ move result => exact .before (result.trans noResult) move
    | @concluded before w eq eq' =>
      have ended : s.move m = _ :=
        (Prod.mk.inj eq).2.trans (complete_snd { s with world := w } before)
      have ended' : s.unsettled.move m = _ :=
        (Prod.mk.inj eq').2.trans (complete_snd { s.unsettled with world := w } before)
      rw [ended, ended']
      exact .after (w := w) rfl rfl rfl rfl
    | @lapsed p reply broken told =>
      -- A reply makes what has broken off call its finisher, without a result.
      obtain ⟨world, phase, finisher⟩ := s
      subst told broken
      have left : (finisher.effect none world).2 = world := needs world
      refine .before ?_ ?_
      · simp only [Session.move, resume]
        split <;> rfl
      · simp only [Session.move, resume, unsettled, Finisher.idle]
        cases acts : finisher none world with
        | ok out =>
          rw [Finisher.effect_of_ok acts] at left
          have left : out.2 = world := left
          rw [← left]
        | error d => rfl
  | @after result w cancelled cancelled' ended world settled world' =>
    obtain ⟨other, eq⟩ := (s.step m).ended settled
    obtain ⟨other', eq'⟩ := (s'.step m).ended ended
    have eq : s.move m = { s with world := { s.world with cancelled := other } } := eq
    have eq' : s'.move m = { s' with world := { s'.world with cancelled := other' } } := eq'
    rw [eq, eq']
    have shown : { s'.world with cancelled := other' } = { w with cancelled := other' } := by
      rw [world]
    have left : { s.world with cancelled := other } =
        { (s.finisher.effect (some result) w).2 with cancelled := other } := by
      rw [world']
    exact .after ended shown settled left

/-- The same history with a finisher that does nothing goes the same way until the run is over, and
then shows what the finisher started from. -/
theorem moves_unsettled {s : Session η} (noResult : s.result? = none)
    (needs : s.finisher.NeedsResult) (moves : List Move) :
    (moves.foldl Session.move s).Settles (moves.foldl Session.move s.unsettled) := by
  have start : s.Settles s.unsettled := .before noResult rfl
  generalize s.unsettled = s' at start
  clear noResult
  induction moves generalizing s s' with
  | nil => exact start
  | cons m moves ih =>
    refine ih (s := s.move m) ?_ (s'.move m) (start.move needs m)
    rwa [(s.step m).finisher]

end Session

/-! ## Finishers of runs that have succeeded -/

/-- The finisher that does nothing when a run has succeeded, and the same otherwise. -/
def Finisher.sparing (finisher : Finisher η) : Finisher η := fun result w =>
  if result.map (·.status) = some .success then .ok (result, w) else finisher result w

theorem Finisher.sparing_of_success (finisher : Finisher η) {result : RunResult}
    (succeeded : result.status = .success) (w : World η) :
    finisher.sparing.effect (some result) w = (some result, w) := by
  have idle : finisher.sparing (some result) w = .ok (some result, w) :=
    if_pos (congrArg some succeeded)
  exact effect_of_ok idle

theorem Finisher.sparing_of_other (finisher : Finisher η) {result : Option RunResult}
    (other : result.map (·.status) ≠ some .success) (w : World η) :
    finisher.sparing.effect result w = finisher.effect result w := by
  have same : finisher.sparing result w = finisher result w := if_neg other
  unfold effect
  rw [same]

theorem Finisher.KeepsRun.sparing {finisher : Finisher η} (keeps : finisher.KeepsRun) :
    finisher.sparing.KeepsRun := by
  constructor
  · intro result w acted w' acts
    unfold Finisher.sparing at acts
    split at acts
    · cases acts
      rfl
    · exact keeps.error acts
  · intro result w acted w' acts
    unfold Finisher.sparing at acts
    split at acts
    · cases acts
      rfl
    · exact keeps.calls acts

namespace Session

/-- The same session with a sparing finisher; or both runs have succeeded. -/
inductive Spared (s s' : Session η) : Prop
  | same (eq : s' = { s with finisher := s.finisher.sparing })
  | succeeded {result result' : RunResult} (phase : s.phase = .finished result)
    (phase' : s'.phase = .finished result') (succeeds : result.status = .success)
    (succeeds' : result'.status = .success)

theorem complete_spared {s : Session η} (keeps : s.finisher.KeepsStatus) (before : RunResult) :
    (s.complete before).2.Spared
      (complete { s with finisher := s.finisher.sparing } before).2 := by
  rw [complete_snd, complete_snd]
  by_cases succeeds : before.status = .success
  · refine .succeeded rfl rfl ((keeps before _).trans succeeds) ?_
    rw [Finisher.sparing_of_success s.finisher succeeds]
    exact succeeds
  · refine .same ?_
    have other : (some before).map (·.status) ≠ some .success :=
      fun eq => succeeds (Option.some.inj eq)
    rw [Finisher.sparing_of_other s.finisher other]

/-- One move. -/
theorem Spared.move {s s' : Session η} (spared : s.Spared s') (keeps : s.finisher.KeepsStatus)
    (m : Move) : (s.move m).Spared (s'.move m) := by
  cases spared with
  | same eq =>
    subst eq
    cases s.alongside s.finisher.sparing m with
    | same _ move =>
      have kept : (s.move m).finisher = s.finisher := (s.step m).finisher
      refine .same ?_
      rw [kept]
      exact move
    | @concluded before w eq eq' =>
      have spared := complete_spared (s := { s with world := w }) keeps before
      rw [← eq, ← eq'] at spared
      exact spared
    | @lapsed p reply broken told =>
      obtain ⟨world, phase, finisher⟩ := s
      subst told broken
      have idle : finisher.sparing none world = finisher none world := if_neg nofun
      refine .same ?_
      simp only [Session.move, resume, idle]
      split <;> rfl
  | succeeded phase phase' succeeds succeeds' =>
    obtain ⟨cancelled, eq⟩ := (s.step m).ended phase
    obtain ⟨cancelled', eq'⟩ := (s'.step m).ended phase'
    have eq : s.move m = { s with world := { s.world with cancelled } } := eq
    have eq' : s'.move m = { s' with world := { s'.world with cancelled := cancelled' } } := eq'
    rw [eq, eq']
    exact .succeeded phase phase' succeeds succeeds'

/-- As long as its run has not succeeded, a session does not show whether its finisher is sparing. -/
theorem moves_spared (s : Session η) (keeps : s.finisher.KeepsStatus) (moves : List Move) :
    (moves.foldl Session.move s).Spared
      (moves.foldl Session.move { s with finisher := s.finisher.sparing }) := by
  have start : s.Spared { s with finisher := s.finisher.sparing } := .same rfl
  generalize { s with finisher := s.finisher.sparing } = s' at start
  induction moves generalizing s s' with
  | nil => exact start
  | cons m moves ih =>
    refine ih (s.move m) ?_ (s'.move m) (start.move keeps m)
    rwa [(s.step m).finisher]

end Session

end InstallScript
