import InstallScript.Proofs.Run.Memory
import InstallScript.Proofs.Run.ChronicleOfRuns
import InstallScript.Proofs.Run.Protocol

/-!
Bounds of runs. From one stop to the next a run makes calls, and all in all at most as many as its
script weighs (`Course.Spends`), since no loop runs its body more often than it may. So a session
hands out at most so many questions, and after as many replies its run is over (`runs_bounded`).
-/

namespace InstallScript

variable {η : Type}

/-! ## Spending calls -/

/-- There are never more calls than the limit says and never fewer than there were; and whenever the
computation waits, there are more than when it started or went on. -/
def Course.Spends {α : Type} (limit : Nat) : Nat → Course (World η) α → Prop
  | before, .done _ w => before ≤ w.calls.size ∧ w.calls.size ≤ limit
  | before, .exit _ w => before ≤ w.calls.size ∧ w.calls.size ≤ limit
  | before, .ask _ w next => before < w.calls.size ∧ w.calls.size ≤ limit ∧
    ∀ r t, t.calls.size = w.calls.size → (next r t).Spends limit w.calls.size

namespace Course.Spends

variable {α β : Type} {limit before : Nat} {c : Course (World η) α}

theorem mono {limit' before' : Nat} (spends : c.Spends limit before) (lower : before' ≤ before)
    (upper : limit ≤ limit') : c.Spends limit' before' := by
  induction c generalizing before before' with
  | done a w => exact ⟨lower.trans spends.1, spends.2.trans upper⟩
  | exit why w => exact ⟨lower.trans spends.1, spends.2.trans upper⟩
  | ask p w next ih =>
    obtain ⟨more, bound, goesOn⟩ := spends
    exact ⟨lower.trans_lt more, bound.trans upper, fun r t same => ih r t (goesOn r t same) le_rfl⟩

theorem andThen {f : α → World η → Course (World η) β} {n : Nat}
    (spends : c.Spends limit before)
    (next : ∀ a w, (f a w).Spends (w.calls.size + n) w.calls.size) :
    (c.andThen f).Spends (limit + n) before := by
  induction c generalizing before with
  | done a w => exact (next a w).mono spends.1 (Nat.add_le_add_right spends.2 n)
  | exit why w => exact ⟨spends.1, Nat.le_add_right_of_le spends.2⟩
  | ask p w goesOn ih =>
    obtain ⟨more, bound, rest⟩ := spends
    exact ⟨more, Nat.le_add_right_of_le bound, fun r t same => ih r t (rest r t same)⟩

theorem atEnd {change : World η → World η} (same : ∀ w, (change w).calls = w.calls)
    (spends : c.Spends limit before) : (c.atEnd change).Spends limit before := by
  induction c generalizing before with
  | done a w =>
    show before ≤ (change w).calls.size ∧ (change w).calls.size ≤ limit
    rwa [same]
  | exit why w =>
    show before ≤ (change w).calls.size ∧ (change w).calls.size ≤ limit
    rwa [same]
  | ask p w goesOn ih =>
    obtain ⟨more, bound, rest⟩ := spends
    exact ⟨more, bound, fun r t same => ih r t (rest r t same)⟩

/-- A quiet step makes no calls. -/
theorem of_rests {w : World η} (rests : c.Rests w) : c.Spends w.calls.size w.calls.size := by
  cases rests with
  | done same => exact ⟨by rw [same.calls], by rw [same.calls]⟩
  | exit same => exact ⟨by rw [same.calls], by rw [same.calls]⟩

/-- A call of the script makes at most one call of the host. -/
theorem of_calls {w : World η} (calls : Run.Calls w c) :
    c.Spends (w.calls.size + 1) w.calls.size := by
  cases calls with
  | refused rests => exact (of_rests rests).mono le_rfl (Nat.le_succ _)
  | made _ calls rests => exact (of_rests rests).mono (by omega) (by omega)
  | @asks p v next _ calls rests =>
    refine ⟨by omega, by omega, fun r t same => ?_⟩
    exact (of_rests (rests r t)).mono (by omega) (by omega)

end Course.Spends

namespace Run

/-- A part of a run that makes at most so many calls. -/
abbrev Spends {α : Type} (n : Nat) (m : Step η α) : Prop :=
  ∀ w, (m w).Spends (w.calls.size + n) w.calls.size

theorem spends_of_rests {α : Type} {m : Step η α} (rests : ∀ w, (m w).Rests w) : Spends 0 m :=
  fun w => .of_rests (rests w)

theorem writeVariable_spends {span : Span} {mode : AssignMode} {name : String} {value : Value} :
    Spends 0 (writeVariable span mode name value : Step η Unit) := by
  intro w
  unfold writeVariable
  split
  · exact ⟨le_rfl, le_rfl⟩
  · split <;> exact ⟨le_rfl, le_rfl⟩

/-- Trees make at most as many calls as they weigh. -/
theorem spends_tracing (setting : Setting η) :
    StatementTracing setting (fun _ _ => True) fun _ n m _ => Spends n m where
  pure _ := ⟨le_rfl, le_rfl⟩
  bind {_ _ _ n k} _ _ _ _ first second w := by
    rw [← Nat.add_assoc]
    exact (first w).andThen fun a => second a
  mono fewer spends w := (spends w).mono le_rfl (Nat.add_le_add_left fewer _)
  leave _ := ⟨le_rfl, le_rfl⟩
  mark _ _ := ⟨le_rfl, le_rfl⟩
  checkCancelled := spends_of_rests checkCancelled_rests
  readVariable := spends_of_rests readVariable_rests
  writeVariable _ := writeVariable_spends
  inFrame {_ _ _ name} _ _ _ spends w :=
    (spends (w.mapScopes (·.push name))).atEnd fun _ => rfl
  call _ w := .of_calls (callWith_calls w)

theorem executeAll_spends (setting : Setting η) (script : Block) :
    Spends (script.weight setting.maxIterations) (executeAll setting script.statements) := by
  obtain ⟨span, statements⟩ := script
  exact (spends_tracing setting).executeAll [] statements fun _ _ _ _ _ => trivial

end Run

/-! ## Sessions -/

namespace Session

/-- The questions that are handed out over a history. -/
def prompts : Session η → List Move → List Prompt
  | _, [] => []
  | s, m :: moves => (handedOut? (s.report m)).toList ++ (s.move m).prompts moves

/-- A session whose run is over, with a result or without. -/
def IsOver (s : Session η) : Prop :=
  (∃ result, s.phase = .finished result) ∨ ∃ last, s.phase = .broken last

/-- Whatever is done to a session, its run spends calls up to the limit. -/
structure Spending (limit : Nat) (s : Session η) : Prop where
  bound : s.world.calls.size ≤ limit
  fresh : ∀ program, s.phase = .fresh program → ∀ w, w.calls.size = s.world.calls.size →
    (program w).Spends limit w.calls.size
  waiting : ∀ p next, s.phase = .waiting p next → ∀ r w, w.calls.size = s.world.calls.size →
    (next r w).Spends limit w.calls.size

section

variable {limit : Nat} {s : Session η}

/-! ### One move -/

theorem spending_of_isOver (isOver : s.IsOver) (bound : s.world.calls.size ≤ limit) :
    s.Spending limit := by
  refine ⟨bound, fun program phase => ?_, fun p next phase => ?_⟩
  · rcases isOver with ⟨result, phase'⟩ | ⟨last, phase'⟩ <;> cases phase.symm.trans phase'
  · rcases isOver with ⟨result, phase'⟩ | ⟨last, phase'⟩ <;> cases phase.symm.trans phase'

theorem conclude_calls (keeps : s.finisher.KeepsRun) (before : RunResult) :
    (s.conclude before).2.world.calls = s.world.calls := by
  rw [conclude, complete_snd]
  exact keeps.effect_calls (some before) _

theorem conclude_silent (s : Session η) (before : RunResult) :
    handedOut? (s.conclude before).1 = none := by
  rcases complete_fst { s with world := s.world.note .info .runs ("script " ++ before.summary) }
    before with ⟨result, eq⟩ | ⟨d, -, eq⟩
  · rw [conclude, eq]
    rfl
  · rw [conclude, eq]
    rfl

/-- The session is over, and nothing has been handed out. -/
theorem conclude_spends (keeps : s.finisher.KeepsRun) {w : World η} {before : Nat}
    (lower : before ≤ w.calls.size) (upper : w.calls.size ≤ limit) (result : RunResult) :
    let out := conclude { s with world := w } result
    out.2.Spending limit ∧ before + (handedOut? out.1).toList.length ≤ out.2.world.calls.size := by
  intro out
  have calls : out.2.world.calls = w.calls := conclude_calls (s := { s with world := w }) keeps result
  have isOver : out.2.IsOver := .inl (conclude_phase { s with world := w } result)
  have silent : handedOut? out.1 = none := conclude_silent { s with world := w } result
  refine ⟨spending_of_isOver isOver ?_, ?_⟩
  · rwa [calls]
  · rw [silent, calls]
    exact lower

theorem settle_spends (keeps : s.finisher.KeepsRun) {course : Course (World η) Unit} {before : Nat}
    (spends : course.Spends limit before) (last : Option Prompt) :
    (s.settle last course).2.Spending limit ∧
      before + (handedOut? (s.settle last course).1).toList.length ≤
        (s.settle last course).2.world.calls.size := by
  cases course with
  | done _ w => exact conclude_spends keeps spends.1 spends.2 _
  | ask p w next =>
    obtain ⟨more, bound, goesOn⟩ := spends
    refine ⟨⟨bound, nofun, ?_⟩, more⟩
    rintro p' next' phase r t same
    cases phase
    rw [same]
    exact goesOn r t same
  | exit why w =>
    cases results : resultOfExit w why with
    | ok result =>
      rw [settle_of_ok results]
      exact conclude_spends keeps spends.1 spends.2 result
    | error d =>
      rw [settle_of_error results]
      exact ⟨spending_of_isOver (.inr ⟨last, rfl⟩) spends.2, spends.1⟩

/-- A move that hands out a question comes behind a call. -/
theorem Step.spends {m : Move} {out : Report × Session η} (step : s.Step m out)
    (keeps : s.finisher.KeepsRun) (spending : s.Spending limit) :
    out.2.Spending limit ∧
      s.world.calls.size + (handedOut? out.1).toList.length ≤ out.2.world.calls.size := by
  cases step with
  | started fresh => exact settle_spends keeps (spending.fresh _ fresh _ rfl) _
  | told waiting => exact settle_spends keeps (spending.waiting _ _ waiting _ _ rfl) _
  | dropped => exact conclude_spends keeps le_rfl spending.bound _
  | kept | refused | abandoned => exact ⟨spending, le_rfl⟩
  | cancelled => exact ⟨⟨spending.bound, spending.fresh, spending.waiting⟩, le_rfl⟩
  | @lapsed reply last report broken silent =>
    have calls := keeps.effect_calls none s.world
    refine ⟨spending_of_isOver (.inr ⟨none, rfl⟩) ?_, ?_⟩
    · show (s.finisher.effect none s.world).2.calls.size ≤ limit
      rw [calls]
      exact spending.bound
    · show s.world.calls.size + (handedOut? report).toList.length ≤
        (s.finisher.effect none s.world).2.calls.size
      rw [calls]
      cases report with
      | prompt p => exact absurd rfl (silent p)
      | result | nothing | raised => exact le_rfl

/-- A run that is over stays so. -/
theorem Step.isOver {m : Move} {out : Report × Session η} (step : s.Step m out)
    (isOver : s.IsOver) : out.2.IsOver := by
  rcases isOver with ⟨result, ended⟩ | ⟨last, broken⟩
  · obtain ⟨cancelled, eq⟩ := step.ended ended
    rw [eq]
    exact .inl ⟨result, ended⟩
  · obtain ⟨last', broken', -⟩ := step.broken broken
    exact .inr ⟨last', broken'⟩

/-- What has come of the run is over, or a question that is handed out. -/
theorem settle_stands (s : Session η) (last : Option Prompt) (course : Course (World η) Unit) :
    (s.settle last course).2.IsOver ∨
      (∃ p next, (s.settle last course).2.phase = .waiting p next) ∧
        (handedOut? (s.settle last course).1).isSome = true := by
  cases course with
  | done _ w => exact .inl (.inl (conclude_phase { s with world := w } _))
  | ask p w next => exact .inr ⟨⟨p, next, rfl⟩, rfl⟩
  | exit why w =>
    left
    cases results : resultOfExit w why with
    | ok result =>
      rw [settle_of_ok results]
      exact .inl (conclude_phase { s with world := w } result)
    | error d =>
      rw [settle_of_error results]
      exact .inr ⟨last, rfl⟩

/-- A waiting run that is told something is over or asks again. -/
theorem Step.stands_of_waiting {m : Move} {out : Report × Session η} (step : s.Step m out)
    {p : Prompt} {next : Resumption → World η → Course (World η) Unit}
    (waits : s.phase = .waiting p next) :
    out.2.IsOver ∨ (∃ p next, out.2.phase = .waiting p next) ∧
      (m.told?.isSome = true → (handedOut? out.1).isSome = true) := by
  cases step with
  | told _ told =>
    exact (settle_stands s _ _).imp id fun ⟨waits, hands⟩ => ⟨waits, fun _ => hands⟩
  | cancelled reason => exact .inr ⟨⟨p, next, waits⟩, nofun⟩
  | refused outOfPlace =>
    refine .inr ⟨⟨p, next, waits⟩, fun tells => absurd ?_ outOfPlace⟩
    cases m with
    | resume | fail => exact ⟨p, next, waits⟩
    | abort reason =>
      intro last broken
      cases waits.symm.trans broken
    | start | cancel => cases tells
  | started phase | dropped phase | kept phase | abandoned phase | lapsed phase =>
    cases waits.symm.trans phase

/-- A run that has not started yet stays so, is over, or asks. -/
theorem Step.stands_of_fresh {m : Move} {out : Report × Session η} (step : s.Step m out)
    {program : Action (World η) Unit} (fresh : s.phase = .fresh program) :
    out.2.IsOver ∨ (m ≠ .start ∧ out.2.phase = .fresh program) ∨
      (∃ p next, out.2.phase = .waiting p next) ∧ (handedOut? out.1).isSome = true := by
  cases step with
  | started => exact (settle_stands s _ _).imp id .inr
  | dropped => exact .inl (.inl (conclude_phase s _))
  | cancelled reason => exact .inr (.inl ⟨nofun, fresh⟩)
  | refused outOfPlace =>
    refine .inr (.inl ⟨?_, fresh⟩)
    rintro rfl
    exact outOfPlace ⟨program, fresh⟩
  | told phase | kept phase | abandoned phase | lapsed phase => cases fresh.symm.trans phase

/-! ### Histories -/

theorem moves_isOver (isOver : s.IsOver) (moves : List Move) :
    (moves.foldl Session.move s).IsOver := by
  induction moves generalizing s with
  | nil => exact isOver
  | cons m moves ih => exact ih ((s.step m).isOver isOver)

/-- Over a history no more calls are made than the limit says, and no more questions are handed out
than calls are made. -/
theorem moves_spend (keeps : s.finisher.KeepsRun) (spending : s.Spending limit)
    (moves : List Move) :
    (moves.foldl Session.move s).world.calls.size ≤ limit ∧
      s.world.calls.size + (s.prompts moves).length ≤
        (moves.foldl Session.move s).world.calls.size := by
  induction moves generalizing s with
  | nil => exact ⟨spending.bound, le_rfl⟩
  | cons m moves ih =>
    obtain ⟨spending', first⟩ := (s.step m).spends keeps spending
    have keeps' : (s.move m).finisher.KeepsRun := (s.step m).finisher ▸ keeps
    obtain ⟨bound, others⟩ := ih keeps' spending'
    refine ⟨bound, ?_⟩
    rw [prompts, List.length_append]
    have first : s.world.calls.size + (handedOut? (s.report m)).toList.length ≤
        (s.move m).world.calls.size := first
    have others : (s.move m).world.calls.size + ((s.move m).prompts moves).length ≤
        (moves.foldl Session.move (s.move m)).world.calls.size := others
    rw [List.foldl_cons]
    omega

/-- How often a waiting run would be told something. -/
def tellings (moves : List Move) : Nat :=
  moves.countP fun m => m.told?.isSome

theorem tellings_cons (m : Move) (moves : List Move) :
    tellings (m :: moves) = tellings moves + if m.told?.isSome = true then 1 else 0 :=
  List.countP_cons

theorem length_of_isSome {p? : Option Prompt} (some' : p?.isSome = true) : p?.toList.length = 1 := by
  obtain ⟨p, rfl⟩ := Option.isSome_iff_exists.1 some'
  rfl

/-- A waiting run that is not over in the end has asked whenever it was told something. -/
theorem tellings_le_prompts {p : Prompt} {next : Resumption → World η → Course (World η) Unit}
    (waits : s.phase = .waiting p next) (moves : List Move)
    (open' : ¬ (moves.foldl Session.move s).IsOver) :
    tellings moves ≤ (s.prompts moves).length := by
  induction moves generalizing s p next with
  | nil => exact le_rfl
  | cons m moves ih =>
    rcases (s.step m).stands_of_waiting waits with isOver | ⟨⟨p', next', waits'⟩, asks⟩
    · exact absurd (moves_isOver isOver moves) open'
    · have others : tellings moves ≤ ((s.move m).prompts moves).length := ih waits' open'
      rw [prompts, List.length_append, tellings_cons]
      split
      · rename_i tells
        have one : (handedOut? (s.report m)).toList.length = 1 := length_of_isSome (asks tells)
        omega
      · omega

/-- A run that has been started and is not over in the end has asked at the start and whenever it
was told something since. -/
theorem tellings_lt_prompts {program : Action (World η) Unit} (fresh : s.phase = .fresh program)
    (before after : List Move)
    (open' : ¬ ((before ++ .start :: after).foldl Session.move s).IsOver) :
    tellings after < (s.prompts (before ++ .start :: after)).length := by
  induction before generalizing s with
  | nil =>
    rw [List.nil_append, prompts, List.length_append]
    rcases (s.step .start).stands_of_fresh fresh with isOver | ⟨other, -⟩ | ⟨⟨p, next, waits⟩, asks⟩
    · exact absurd (moves_isOver isOver after) open'
    · exact absurd rfl other
    · have one : (handedOut? (s.report .start)).toList.length = 1 := length_of_isSome asks
      have others : tellings after ≤ ((s.move .start).prompts after).length :=
        tellings_le_prompts waits after open'
      omega
  | cons m before ih =>
    rw [List.cons_append, prompts, List.length_append]
    rcases (s.step m).stands_of_fresh fresh with isOver | ⟨-, fresh'⟩ | ⟨⟨p, next, waits⟩, asks⟩
    · exact absurd (moves_isOver isOver _) open'
    · have others : tellings after < ((s.move m).prompts (before ++ .start :: after)).length :=
        ih fresh' open'
      omega
    · have one : (handedOut? (s.report m)).toList.length = 1 := length_of_isSome asks
      have others : tellings (before ++ .start :: after) ≤
          ((s.move m).prompts (before ++ .start :: after)).length :=
        tellings_le_prompts waits _ open'
      have fewer : tellings after ≤ tellings (before ++ .start :: after) := by
        refine List.Sublist.countP_le ?_
        exact (List.sublist_cons_self _ _).trans (List.sublist_append_right _ _)
      omega

end

/-- The run of a script spends calls up to the weight of the script. -/
theorem ofScript_spending (setting : Setting η) (script : Block) (world : World η)
    (finisher : Finisher η) : (ofScript setting script world finisher).Spending
      (world.calls.size + script.weight setting.maxIterations) := by
  refine ⟨Nat.le_add_right _ _, ?_, nofun⟩
  rintro program phase w same
  cases phase
  have spends := Run.executeAll_spends setting script w
  rwa [same] at spends ⊢

/-- A run that has failed because of the number of iterations has been told so, or stands before the
body of a loop that it has run as often as it may. -/
theorem Chronicled.exceeded {script : Block} {base limit : Nat} {told : Exit → Prop}
    {s : Session (η × List Event)} (chronicled : s.Chronicled script base limit told)
    {result : RunResult} (phase : s.phase = .finished result) {d : Diagnostic}
    (error : result.error = some d) (code : d.code = "E404") :
    (∃ e, told (.failed e) ∧ e.fault.code = "E404") ∨ ∃ m earlier loop body counter,
      s.world.host.2 = m :: earlier ∧ m.deed = .excess (limit + 1) ∧
        statementOf earlier = some loop ∧ loop.Repeats body counter ∧
          iterationsSince m.blocks.length earlier = limit := by
  cases chronicled with
  | fresh phase' | waiting phase' | broken phase' => cases phase.symm.trans phase'
  | @finished _ why phase' ended showing =>
    cases phase.symm.trans phase'
    cases why with
    | returned =>
      cases error.symm.trans showing.2.1
    | aborted reason => cases error.symm.trans showing.2.1
    | crashed defect => exact absurd showing id
    | failed e =>
      obtain ⟨-, ⟨d', error', code'⟩, -⟩ := showing
      cases error.symm.trans error'
      have code : e.fault.code = "E404" := code'.symm.trans code
      rcases ended.ending with ⟨reason, other, -⟩ | ⟨-, ending⟩
      · cases other
      · cases ending with
        | told holds => exact .inl ⟨e, holds, code⟩
        | failed other => exact absurd code other
        | @exceeded _ m earlier number last deed =>
          have belongs : m.Belongs script limit earlier := by
            have orderly := ended.orderly
            rw [last] at orderly
            exact orderly.1.belongs
          obtain ⟨loop, body, counter, inProgress, repeats, rfl, count⟩ := belongs.excess deed
          exact .inr ⟨m, earlier, loop, body, counter, last, deed, inProgress, repeats, by omega⟩

end Session

/-- Every run ends, and its calls are bounded. There are never more calls of the host than the
script weighs, and never more questions than calls; once a run has been started and told something
as often as its script weighs, it is over. No loop runs its body more often than it may, counted
from its start; and unless it was told to fail so, a run only fails because of that number when a
loop that has run its body as often as it may is about to run it once more. -/
theorem runs_bounded (setting : Setting η) (script : Block) (world : World η)
    {finisher : Finisher η} (modest : finisher.Modest) (moves : List Session.Move) :
    let start := Session.ofScript setting script world finisher
    let session := moves.foldl Session.move start
    let traced := moves.foldl Session.move (Session.ofTraced setting script world finisher)
    let trace := traced.world.host.2
    let weight := script.weight setting.maxIterations
    session.world.calls.size ≤ world.calls.size + weight ∧
      world.calls.size + (start.prompts moves).length ≤ session.world.calls.size ∧
      (∀ before after, moves = before ++ .start :: after → weight ≤ Session.tellings after →
        session.IsOver) ∧
      session.Same traced ∧
      (∀ later m earlier number counter, trace = later ++ m :: earlier →
        m.deed = .iteration number counter → ∃ body blocks loop, m.blocks = body :: blocks ∧
          statementOf earlier = some loop ∧ loop.Repeats body (counter.map Prod.fst) ∧
          number = iterationsSince blocks.length earlier + 1 ∧ number ≤ setting.maxIterations) ∧
      ∀ result d, session.phase = .finished result → result.error = some d → d.code = "E404" →
        (∃ e, Session.ToldBy moves (.failed e) ∧ e.fault.code = "E404") ∨
          ∃ m earlier loop body counter, trace = m :: earlier ∧
            m.deed = .excess (setting.maxIterations + 1) ∧ statementOf earlier = some loop ∧
              loop.Repeats body counter ∧
                iterationsSince m.blocks.length earlier = setting.maxIterations := by
  intro start session traced trace weight
  have chronicled : traced.Chronicled script world.context.scopes.depth setting.maxIterations
      (Session.ToldBy moves) := Session.traced_chronicled setting script world modest moves
  have orderly : Orderly script world.context.scopes.depth setting.maxIterations trace :=
    chronicled.orderly
  have same : session.Same traced :=
    Session.traced_same setting script world finisher moves modest.keepsRun
  obtain ⟨bound, spent⟩ := Session.moves_spend (s := start) modest.keepsRun
    (Session.ofScript_spending setting script world finisher) moves
  refine ⟨bound, spent, fun before after eq enough => ?_, same,
    fun later m earlier number counter eq deed => ?_, fun result d phase error code => ?_⟩
  · by_contra open'
    have asked : Session.tellings after < (start.prompts moves).length := by
      have asked := Session.tellings_lt_prompts (s := start) rfl before after
      rw [← eq] at asked
      exact asked open'
    have spent : world.calls.size + (start.prompts moves).length ≤ session.world.calls.size := spent
    have bound : session.world.calls.size ≤ world.calls.size + weight := bound
    omega
  · rw [eq] at orderly
    obtain ⟨body, blocks, loop, name, places, inProgress, repeats, count, few, -⟩ :=
      orderly.follows.belongs.iteration deed
    exact ⟨body, blocks, loop, places, inProgress, repeats, count, few⟩
  · have shown : traced.result? = some result := by
      rw [← same.result]
      exact Session.result?_eq_some_iff.2 phase
    exact chronicled.exceeded (Session.result?_eq_some_iff.1 shown) error code

/-- The session of a script whose loop may run its body twice. -/
def askingTwice : Session Unit :=
  Session.ofScript { asker with maxIterations := 2 } askedInLoop ⟨{}, (), none, #[], #[]⟩

/-- Two answers. -/
def answeredTwice : List Session.Move :=
  [.start, .resume (.answer (.bool true)), .resume (.answer (.bool true))]

theorem asked_twice :
    askedInLoop.weight 2 = 2 ∧ (answeredTwice.foldl Session.move askingTwice).IsOver ∧
      ∃ m earlier, (answeredTwice.foldl Session.move (Session.ofTraced
        { asker with maxIterations := 2 } askedInLoop ⟨{}, (), none, #[], #[]⟩
        Finisher.idle)).world.host.2 = m :: earlier ∧ m.deed = .excess 3 := by
  have weight : askedInLoop.weight 2 = 2 := by decide +kernel
  have exceeded : (answeredTwice.foldl Session.move askingTwice).result?.bind
      (fun result => result.error.map (·.code)) = some "E404" := by decide +kernel
  obtain ⟨-, -, ends, -, -, excess⟩ := runs_bounded { asker with maxIterations := 2 } askedInLoop
    ⟨{}, (), none, #[], #[]⟩ Finisher.idle_modest answeredTwice
  obtain ⟨result, shown, error⟩ := Option.bind_eq_some_iff.1 exceeded
  obtain ⟨d, error, code⟩ := Option.map_eq_some_iff.1 error
  refine ⟨weight, ends [] answeredTwice.tail rfl (le_of_eq weight), ?_⟩
  rcases excess result d (Session.result?_eq_some_iff.1 shown) error code with
    ⟨e, ⟨m, member, told⟩, -⟩ | ⟨m, earlier, -, -, -, trace, deed, -⟩
  · simp only [answeredTwice, List.mem_cons, List.not_mem_nil, or_false] at member
    rcases member with rfl | rfl | rfl <;> rcases told with told | ⟨told, -⟩ <;> cases told
  · exact ⟨m, earlier, trace, deed⟩

end InstallScript
