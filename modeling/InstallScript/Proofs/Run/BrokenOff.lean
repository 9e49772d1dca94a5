import InstallScript.Proofs.Run.Defects
import InstallScript.Proofs.Run.Finishers

/-!
Sessions of runs that break off. When a defect escapes from a move, the session is closed, unless
it had been waiting for a reply and has come to no result: then the old question still looks open,
an error that the run is to end with is thrown back, and one more reply is taken, which asks the
finisher without a result (`closed_unless_left_open`).
-/

namespace InstallScript

variable {η : Type}

namespace Session

/-- The run has broken off, and the question that was open before still looks open. -/
def LeftOpen (s : Session η) : Prop := ∃ p, s.phase = .broken (some p)

/-- The moves that go on with a waiting run. -/
def Move.GoesOn : Move → Prop
  | .resume _ | .fail _ => True
  | _ => False

/-- Whatever is done to the session from now on, in whatever order, nothing but its cancellation
changes, no question is open, and replies and errors are refused. -/
def Closed (s : Session η) : Prop :=
  ∀ later : List Move,
    (∃ cancelled, later.foldl Session.move s = { s with world := { s.world with cancelled } }) ∧
      (later.foldl Session.move s).pending = none ∧
        ∀ m : Move, m.GoesOn → (later.foldl Session.move s).report m = .raised .notWaiting

/-- No reply is given over the history while the run is left open. -/
def NeverLapses : Session η → List Move → Prop
  | _, [] => True
  | s, m :: moves => (s.LeftOpen → ∀ reply, m ≠ .resume reply) ∧ (s.move m).NeverLapses moves

variable {s : Session η}

/-! ## Closed sessions -/

/-- A run that has a result, or that has broken off with no question open, is closed. -/
theorem closed_of_closing
    (closing : (∃ result, s.phase = .finished result) ∨ s.phase = .broken none) : s.Closed := by
  intro later
  obtain ⟨cancelled, eq⟩ := moves_of_closing closing later
  refine ⟨⟨cancelled, eq⟩, ?_, fun m goesOn => ?_⟩
  · rw [eq]
    rcases closing with ⟨result, phase⟩ | phase <;> simp only [pending, phase]
  · rw [eq]
    cases m with
    | resume reply =>
      rcases closing with ⟨result, phase⟩ | phase <;> simp only [report, resume, phase]
    | fail error =>
      rcases closing with ⟨result, phase⟩ | phase <;> simp only [report, fail, phase]
    | start | abort | cancel => exact absurd goesOn id

/-! ## Sessions that are left open -/

theorem LeftOpen.pending (leftOpen : s.LeftOpen) : s.pending ≠ none := by
  obtain ⟨p, broken⟩ := leftOpen
  rw [Session.pending, broken]
  exact Option.some_ne_none p

theorem LeftOpen.not_closed (leftOpen : s.LeftOpen) : ¬ s.Closed :=
  fun closed => leftOpen.pending (closed []).2.1

/-- A reply to a run that is left open asks the finisher without a result. -/
theorem LeftOpen.resume (leftOpen : s.LeftOpen) (reply : Reply) : s.resume reply =
    (match s.finisher none s.world with
      | .ok _ => .nothing
      | .error d => .raised d,
      { s with world := (s.finisher.effect none s.world).2, phase := .broken none }) := by
  obtain ⟨p, broken⟩ := leftOpen
  unfold Session.resume Finisher.effect
  rw [broken]
  dsimp only
  cases s.finisher none s.world <;> rfl

/-- An error that a run which is left open is to end with is thrown back. -/
theorem LeftOpen.fail (leftOpen : s.LeftOpen) (error : ScriptError) :
    s.fail error = (.raised (.script error), s) := by
  obtain ⟨p, broken⟩ := leftOpen
  unfold Session.fail
  rw [broken]

/-! ## One move -/

theorem conclude_ne_nothing (s : Session η) (before : RunResult) :
    (s.conclude before).1 ≠ .nothing := by
  rcases complete_fst { s with world := s.world.note .info .runs ("script " ++ before.summary) }
    before with ⟨result, eq⟩ | ⟨d, -, eq⟩
  · rw [conclude, eq]
    intro other
    cases other
  · rw [conclude, eq]
    intro other
    cases other

theorem settle_ne_nothing (s : Session η) (last : Option Prompt) (course : Course (World η) Unit) :
    (s.settle last course).1 ≠ .nothing := by
  cases course with
  | done _ w => exact conclude_ne_nothing _ _
  | ask p w next => nofun
  | exit why w =>
    cases results : resultOfExit w why with
    | ok result =>
      rw [settle_of_ok results]
      exact conclude_ne_nothing _ _
    | error d =>
      rw [settle_of_error results]
      nofun

/-- A defect that escapes leaves a result, or a run that has broken off with the old question. -/
theorem settle_raised {last : Option Prompt} {course : Course (World η) Unit} {d : Defect}
    (raises : (s.settle last course).1 = .raised d) :
    (∃ result, (s.settle last course).2.phase = .finished result) ∨
      (s.settle last course).2.phase = .broken last := by
  cases course with
  | done _ w => exact .inl (conclude_phase { s with world := w } _)
  | ask p w next => cases raises
  | exit why w =>
    cases results : resultOfExit w why with
    | ok result =>
      rw [settle_of_ok results]
      exact .inl (conclude_phase { s with world := w } result)
    | error d =>
      rw [settle_of_error results]
      exact .inr rfl

theorem Step.raised {m : Move} {out : Report × Session η} (step : s.Step m out)
    (permits : s.Permits m) (notCancel : ∀ reason, m ≠ .cancel reason) {d : Defect}
    (raises : out.1 = .raised d) :
    (∃ result, out.2.phase = .finished result) ∨ out.2.phase = .broken s.pending := by
  cases step with
  | started fresh =>
    have none' : s.pending = none := by rw [pending, fresh]
    rw [none']
    exact settle_raised raises
  | @told p next m r waiting told =>
    have some' : s.pending = some p := by rw [pending, waiting]
    rw [some']
    exact settle_raised raises
  | dropped => exact .inl (conclude_phase s _)
  | kept => cases raises
  | cancelled reason => exact absurd rfl (notCancel reason)
  | refused outOfPlace => exact absurd permits outOfPlace
  | abandoned broken | lapsed broken => exact absurd broken (permits.unbroken notCancel _)

/-- After a defect has escaped from a move in place, the session is left open or closed. -/
theorem left_open_or_closed {m : Move} {d : Defect} (permits : s.Permits m)
    (raises : s.report m = .raised d) :
    ((s.move m).LeftOpen ↔ s.pending ≠ none ∧ (s.move m).result? = none) ∧
      ((s.move m).Closed ↔ ¬ (s.move m).LeftOpen) := by
  have notCancel (reason : String) : m ≠ .cancel reason := by
    rintro rfl
    cases raises
  have closes (closing : (∃ result, (s.move m).phase = .finished result) ∨
      (s.move m).phase = .broken none) : (s.move m).Closed ↔ ¬ (s.move m).LeftOpen :=
    ⟨fun closed leftOpen => leftOpen.not_closed closed, fun _ => closed_of_closing closing⟩
  have stands : (∃ result, (s.move m).phase = .finished result) ∨
      (s.move m).phase = .broken s.pending := (s.step m).raised permits notCancel raises
  unfold result?
  rcases stands with ⟨result, ended⟩ | broken
  · refine ⟨⟨?_, ?_⟩, closes (.inl ⟨result, ended⟩)⟩
    · rintro ⟨p, broken⟩
      cases ended.symm.trans broken
    · rw [ended]
      rintro ⟨-, other⟩
      cases other
  · cases last : s.pending with
    | none =>
      rw [last] at broken
      refine ⟨⟨?_, fun ⟨other, _⟩ => absurd rfl other⟩, closes (.inr broken)⟩
      rintro ⟨p, broken'⟩
      cases broken.symm.trans broken'
    | some p =>
      rw [last] at broken
      have leftOpen : (s.move m).LeftOpen := ⟨p, broken⟩
      rw [broken]
      exact ⟨⟨fun _ => ⟨nofun, rfl⟩, fun _ => leftOpen⟩,
        ⟨fun closed => absurd closed leftOpen.not_closed, fun other => absurd leftOpen other⟩⟩

theorem Step.silent {m : Move} {out : Report × Session η} (step : s.Step m out)
    (notCancel : ∀ reason, m ≠ .cancel reason) (silent : out.1 = .nothing) :
    (∃ last, s.phase = .broken last) ∧ ∃ reply, m = .resume reply := by
  cases step with
  | started | told => exact absurd silent (settle_ne_nothing _ _ _)
  | dropped => exact absurd silent (conclude_ne_nothing _ _)
  | kept | refused | abandoned => cases silent
  | cancelled reason => exact absurd rfl (notCancel reason)
  | @lapsed reply _ _ broken => exact ⟨⟨_, broken⟩, reply, rfl⟩

/-- Only a reply to a run that is left open gives neither a question nor a result and raises
nothing. -/
theorem leftOpen_of_silent {m : Move} (notCancel : ∀ reason, m ≠ .cancel reason)
    (silent : s.report m = .nothing) : s.LeftOpen ∧ ∃ reply, m = .resume reply := by
  obtain ⟨⟨last, broken⟩, reply, rfl⟩ := (s.step m).silent notCancel silent
  cases last with
  | none =>
    simp only [report, resume, broken] at silent
    cases silent
  | some p => exact ⟨⟨p, broken⟩, reply, rfl⟩

/-! ## Finishers without a result -/

/-- With another finisher that does the same with every result, a move gives the same and leaves the
same behind, unless it is a reply to a run that is left open. -/
theorem move_of_agreeing {other : Finisher η}
    (agrees : ∀ result w, s.finisher (some result) w = other (some result) w) {m : Move}
    (noReply : s.LeftOpen → ∀ reply, m ≠ .resume reply) :
    { s with finisher := other }.report m = s.report m ∧
      { s with finisher := other }.move m = { s.move m with finisher := other } := by
  cases s.alongside other m with
  | same report move => exact ⟨report, move⟩
  | @concluded before w eq eq' =>
    have same : complete { s with world := w, finisher := other } before =
        ((complete { s with world := w } before).1,
          { (complete { s with world := w } before).2 with finisher := other }) := by
      unfold complete
      dsimp only
      rw [agrees]
      split <;> rfl
    rw [same, ← eq] at eq'
    exact Prod.mk.inj eq'
  | @lapsed p reply broken told => exact absurd told (noReply ⟨p, broken⟩ reply)

theorem moves_of_agreeing {other : Finisher η}
    (agrees : ∀ result w, s.finisher (some result) w = other (some result) w) {moves : List Move}
    (neverLapses : s.NeverLapses moves) :
    { s with finisher := other }.reports moves = s.reports moves ∧
      moves.foldl Session.move { s with finisher := other } =
        { moves.foldl Session.move s with finisher := other } := by
  induction moves generalizing s with
  | nil => exact ⟨rfl, rfl⟩
  | cons m moves ih =>
    obtain ⟨noReply, later⟩ := neverLapses
    obtain ⟨report, move⟩ := move_of_agreeing agrees noReply
    have agrees' : ∀ result w, (s.move m).finisher (some result) w = other (some result) w := by
      have kept : (s.move m).finisher = s.finisher := (s.step m).finisher
      rw [kept]
      exact agrees
    obtain ⟨reports, moves⟩ := ih agrees' later
    rw [Session.reports, List.foldl_cons, report, move, reports, moves]
    exact ⟨rfl, rfl⟩

end Session

/-- What becomes of a session when a defect escapes, whatever has been done to it. After a move in
place from which a defect escapes it is left open if it was waiting and has come to no result, and
closed otherwise. Only a reply to a session that is left open gives neither a question nor a result
and raises nothing; it asks the finisher without a result, after which the session is closed. As
long as no such reply is given, the finisher is not asked without a result: another one that does
the same with every result cannot be told from it. -/
theorem closed_unless_left_open (setting : Setting η) (script : Block) (world : World η)
    (finisher : Finisher η) (moves : List Session.Move) :
    let start := Session.ofScript setting script world finisher
    let session := moves.foldl Session.move start
    (∀ m d, session.Permits m → session.report m = .raised d →
      ((session.move m).LeftOpen ↔ session.pending ≠ none ∧ (session.move m).result? = none) ∧
        ((session.move m).Closed ↔ ¬ (session.move m).LeftOpen)) ∧
      (∀ m, (∀ reason, m ≠ .cancel reason) → session.report m = .nothing →
        session.LeftOpen ∧ ∃ reply, m = .resume reply) ∧
      (session.LeftOpen → session.pending ≠ none ∧
        (∀ error, session.report (.fail error) = .raised (.script error) ∧
          session.move (.fail error) = session) ∧
        ∀ reply, session.report (.resume reply) =
            (match finisher none session.world with
              | .ok _ => .nothing
              | .error d => .raised d) ∧
          (session.move (.resume reply)).world = (finisher.effect none session.world).2 ∧
            (session.move (.resume reply)).Closed) ∧
      ∀ other : Finisher η, (∀ result w, finisher (some result) w = other (some result) w) →
        start.NeverLapses moves →
          (Session.ofScript setting script world other).reports moves = start.reports moves ∧
            moves.foldl Session.move (Session.ofScript setting script world other) =
              { session with finisher := other } := by
  intro start session
  have kept : session.finisher = finisher := Session.moves_finisher start moves
  refine ⟨fun m d permits raises => Session.left_open_or_closed permits raises,
    fun m notCancel silent => Session.leftOpen_of_silent notCancel silent,
    fun leftOpen => ⟨leftOpen.pending, fun error => Prod.mk.inj (leftOpen.fail error),
      fun reply => ?_⟩,
    fun other agrees neverLapses => Session.moves_of_agreeing agrees neverLapses⟩
  have resumed := leftOpen.resume reply
  rw [kept] at resumed
  have moved : session.move (.resume reply) = _ := congrArg Prod.snd resumed
  refine ⟨congrArg Prod.fst resumed, congrArg (·.2.world) resumed, ?_⟩
  rw [moved]
  exact Session.closed_of_closing (.inr rfl)

/-- A question, and then a sum that double precision cannot hold. -/
def askedBeforeSum : Source := ⟨"Ask()\nx = 1e308 * 10 + 0.5".toList, none⟩

/-- A finisher that breaks off without a result. -/
def Finisher.demanding {η : Type} : Finisher η := fun result w =>
  match result with
  | some r => .ok (some r, w)
  | none => .error .noResult

/-- A session that has asked. -/
def askedSum (finisher : Finisher Unit) (script : Block) : Session Unit :=
  (Session.ofScript asker script ⟨{}, (), none, #[], #[]⟩ finisher).move .start

/-- A yes. -/
def saysYes : Session.Move := .resume (.answer (.bool true))

/-- After the sum has broken off the question is still open. The next reply gives nothing, and asks
the finisher without a result, which one that demands a result shows. -/
theorem askedSum_escapes : ∃ script,
    compile asker.catalog .second false askedBeforeSum = .ok script ∧
      (∃ next, (askedSum Finisher.idle script).phase = .waiting sureQuestion next) ∧
      (askedSum Finisher.idle script).report saysYes = .raised (.overflow .operand) ∧
      ((askedSum Finisher.idle script).move saysYes).result? = none ∧
      ((askedSum Finisher.idle script).move saysYes).pending = some sureQuestion ∧
      ((askedSum Finisher.idle script).move saysYes).report saysYes = .nothing ∧
      ((askedSum Finisher.demanding script).move saysYes).report saysYes = .raised .noResult := by
  have fact : (match compile asker.catalog .second false askedBeforeSum with
      | .ok script => (askedSum Finisher.idle script).waitsFor sureQuestion &&
          decide ((askedSum Finisher.idle script).report saysYes = .raised (.overflow .operand) ∧
            ((askedSum Finisher.idle script).move saysYes).result? = none ∧
            ((askedSum Finisher.idle script).move saysYes).pending = some sureQuestion ∧
            ((askedSum Finisher.idle script).move saysYes).report saysYes = .nothing ∧
            ((askedSum Finisher.demanding script).move saysYes).report saysYes =
              .raised .noResult)
      | .error _ => false) = true := by decide +kernel
  cases compiled : compile asker.catalog .second false askedBeforeSum with
  | error e =>
    rw [compiled] at fact
    cases fact
  | ok script =>
    rw [compiled, Bool.and_eq_true, decide_eq_true_eq] at fact
    exact ⟨script, rfl, Session.waiting_of_waitsFor fact.1, fact.2⟩

theorem askedSum_closed_in_the_end : ∃ script,
    compile asker.catalog .second false askedBeforeSum = .ok script ∧
      ((askedSum Finisher.idle script).move saysYes).LeftOpen ∧
        (((askedSum Finisher.idle script).move saysYes).move saysYes).Closed := by
  obtain ⟨script, compiled, ⟨next, phase⟩, raises, noResult, -⟩ := askedSum_escapes
  have pending : (askedSum Finisher.idle script).pending ≠ none := by
    rw [Session.pending, phase]
    exact Option.some_ne_none _
  obtain ⟨escapes, -, -, -⟩ := closed_unless_left_open asker script ⟨{}, (), none, #[], #[]⟩
    Finisher.idle [.start]
  obtain ⟨left, -⟩ := escapes saysYes _ ⟨_, next, phase⟩ raises
  have leftOpen : ((askedSum Finisher.idle script).move saysYes).LeftOpen :=
    left.2 ⟨pending, noResult⟩
  obtain ⟨-, -, replies, -⟩ := closed_unless_left_open asker script ⟨{}, (), none, #[], #[]⟩
    Finisher.idle [.start, saysYes]
  obtain ⟨-, -, replied⟩ := replies leftOpen
  obtain ⟨-, -, closed⟩ := replied (.answer (.bool true))
  exact ⟨script, compiled, leftOpen, closed⟩

theorem askedSum_left_open : ∃ script,
    compile asker.catalog .second false askedBeforeSum = .ok script ∧
      (askedSum Finisher.idle script).Permits saysYes ∧
      (askedSum Finisher.idle script).report saysYes = .raised (.overflow .operand) ∧
      ((askedSum Finisher.idle script).move saysYes).pending = some sureQuestion ∧
      ((askedSum Finisher.idle script).move saysYes).report saysYes = .nothing ∧
      ((askedSum Finisher.demanding script).move saysYes).report saysYes = .raised .noResult := by
  obtain ⟨script, compiled, ⟨next, phase⟩, raises, -, shown⟩ := askedSum_escapes
  exact ⟨script, compiled, ⟨_, next, phase⟩, raises, shown⟩

end InstallScript
