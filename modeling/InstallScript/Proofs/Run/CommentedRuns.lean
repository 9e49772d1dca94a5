import InstallScript.Proofs.Run.Abreast
import InstallScript.Proofs.Run.Cancellation
import InstallScript.Proofs.Run.Sooner

/-!
Sessions of a script with comments and without. The same moves give the same in both, unless the run
is cancelled: with comments it may then be aborted where it would have come to its end without them
(`commented_run_ends_sooner`), and a comment behind the last statement is enough for that. The calls
made, the questions asked and the variables are the same even then.
-/

namespace InstallScript

/-! ## Sessions side by side -/

/-- The question that is asked, if one is. -/
def Report.prompt? : Report → Option Prompt
  | .prompt p => some p
  | _ => none

namespace Session

variable {η : Type}

/-- Phases of runs of which the first one may end sooner. -/
inductive SoonerPhase : Phase η → Phase η → Prop
  | fresh {program program' : Action (World η) Unit} (sooner : program.Sooner program') :
    SoonerPhase (.fresh program) (.fresh program')
  | waiting {p : Prompt} {next next' : Resumption → World η → Course (World η) Unit}
    (goesOn : ∀ r t, (next r t).Sooner (next' r t)) :
    SoonerPhase (.waiting p next) (.waiting p next')
  | finished (result : RunResult) : SoonerPhase (.finished result) (.finished result)
  | broken (last : Option Prompt) : SoonerPhase (.broken last) (.broken last)

/-- Sessions that have come to the same so far, of which the first one may end sooner. -/
structure Beside (s s' : Session η) : Prop where
  world : s.world = s'.world
  finisher : s.finisher = s'.finisher
  phase : SoonerPhase s.phase s'.phase

/-- What a move gives where sessions part: in the same world, with the run cancelled, the first one
is aborted, and the second one has nothing left to do or breaks off with an overflow. -/
inductive Parted (s s' : Session η) (out out' : Report × Session η) : Prop
  | ended {w : World η} {reason : String} (cancelled : w.cancelled = some reason)
    (aborts : out = conclude { s with world := w } (resultOf w .aborted none (some reason)))
    (succeeds : out' = conclude { s' with world := w } (resultOf w .success none none))
  | overflow {w : World η} {reason : String} {cause : Overflow} {last : Option Prompt}
    (cancelled : w.cancelled = some reason)
    (aborts : out = conclude { s with world := w } (resultOf w .aborted none (some reason)))
    (breaks : out' = (.raised (.overflow cause), { s' with world := w, phase := .broken last }))

section

variable {s s' : Session η}

/-- A run concludes in the same way wherever it has come from. -/
theorem conclude_congr (finisher : s.finisher = s'.finisher) (w : World η) (result : RunResult) :
    conclude { s with world := w } result = conclude { s' with world := w } result := by
  unfold conclude complete
  dsimp only
  rw [finisher]

theorem conclude_finished (s : Session η) (before : RunResult) :
    ∃ result, (s.conclude before).2.phase = .finished result := by
  rw [conclude, complete_snd]
  exact ⟨_, rfl⟩

/-! ## Sessions that are over -/

/-- The run is over or has broken off. -/
def Settled (s : Session η) : Prop :=
  (∃ result, s.phase = .finished result) ∨ ∃ last, s.phase = .broken last

/-- Nothing happens any more in a run that is over: no question is asked and no call is made. -/
theorem Step.settled {m : Move} {out : Report × Session η} (step : s.Step m out)
    (settled : s.Settled) : out.2.Settled ∧ out.1.prompt? = none ∧
      (s.finisher.Modest → out.2.world.calls = s.world.calls ∧
        out.2.world.context.scopes = s.world.context.scopes) := by
  cases step with
  | started phase | told phase | dropped phase =>
    rcases settled with ⟨result, ended⟩ | ⟨last, broken⟩
    · cases phase.symm.trans ended
    · cases phase.symm.trans broken
  | kept | cancelled | refused | abandoned => exact ⟨settled, rfl, fun _ => ⟨rfl, rfl⟩⟩
  | @lapsed reply last report broken silent =>
    refine ⟨.inr ⟨none, rfl⟩, ?_, fun modest => ⟨modest.calls none _, modest.scopes none _⟩⟩
    cases report with
    | prompt p => exact absurd rfl (silent p)
    | _ => rfl

theorem Settled.moves {s : Session η} (settled : s.Settled) (modest : s.finisher.Modest)
    (moves : List Move) : (s.reports moves).filterMap Report.prompt? = [] ∧
      (moves.foldl Session.move s).world.calls = s.world.calls ∧
      (moves.foldl Session.move s).world.context.scopes = s.world.context.scopes := by
  induction moves generalizing s with
  | nil => exact ⟨rfl, rfl, rfl⟩
  | cons m moves ih =>
    obtain ⟨settled', silent, keeps⟩ := (s.step m).settled settled
    obtain ⟨calls, scopes⟩ := keeps modest
    have modest' : (s.move m).finisher.Modest := (s.step m).finisher ▸ modest
    obtain ⟨silent', calls', scopes'⟩ := ih settled' modest'
    refine ⟨?_, calls'.trans calls, scopes'.trans scopes⟩
    rw [reports, List.filterMap_cons_none silent]
    exact silent'

theorem Beside.of_settled {t : Session η} (settled : t.Settled) : t.Beside t := by
  refine ⟨rfl, rfl, ?_⟩
  rcases settled with ⟨result, ended⟩ | ⟨last, broken⟩
  · exact ended ▸ .finished result
  · exact broken ▸ .broken last

/-! ## One move -/

theorem conclude_beside (finisher : s.finisher = s'.finisher) (w : World η) (result : RunResult) :
    (conclude { s with world := w } result).1 = (conclude { s' with world := w } result).1 ∧
      (conclude { s with world := w } result).2.Beside
        (conclude { s' with world := w } result).2 := by
  rw [conclude_congr finisher]
  exact ⟨rfl, .of_settled (.inl (conclude_finished _ result))⟩

theorem settle_beside (finisher : s.finisher = s'.finisher) {c c' : Course (World η) Unit}
    (sooner : c.Sooner c') (last : Option Prompt) :
    (s.settle last c).1 = (s'.settle last c').1 ∧
        (s.settle last c).2.Beside (s'.settle last c').2 ∨
      Parted s s' (s.settle last c) (s'.settle last c') := by
  cases sooner with
  | done _ w => exact .inl (conclude_beside finisher w _)
  | exit why w =>
    cases results : resultOfExit w why with
    | ok result =>
      rw [settle_of_ok results, settle_of_ok results]
      exact .inl (conclude_beside finisher w result)
    | error d =>
      rw [settle_of_error results, settle_of_error results]
      exact .inl ⟨rfl, rfl, finisher, .broken last⟩
  | ask goesOn => exact .inl ⟨rfl, rfl, finisher, .waiting goesOn⟩
  | ended cancelled => exact .inr (.ended cancelled (settle_of_ok rfl) rfl)
  | overflow cancelled =>
    exact .inr (.overflow cancelled (settle_of_ok rfl) (settle_of_error rfl))

/-- The same move keeps sessions side by side, or they part. -/
theorem Beside.move (beside : s.Beside s') (m : Move) :
    s.report m = s'.report m ∧ (s.move m).Beside (s'.move m) ∨
      Parted s s' (s.report m, s.move m) (s'.report m, s'.move m) := by
  obtain ⟨world, phase, finisher⟩ := s
  obtain ⟨world', phase', finisher'⟩ := s'
  obtain ⟨sameWorld, sameFinisher, phases⟩ := beside
  dsimp only at sameWorld sameFinisher phases
  subst sameWorld sameFinisher
  have settled {t : Session η} (isOver : t.Settled) : t.report m = t.report m ∧
      (t.move m).Beside (t.move m) ∨ Parted t t (t.report m, t.move m) (t.report m, t.move m) :=
    .inl ⟨rfl, .of_settled ((t.step m).settled isOver).1⟩
  cases phases with
  | @fresh program program' sooner =>
    have same : Beside ⟨world, .fresh program, finisher⟩ ⟨world, .fresh program', finisher⟩ :=
      ⟨rfl, rfl, .fresh sooner⟩
    cases m with
    | start =>
      exact @settle_beside _ ⟨world, .fresh program, finisher⟩
        ⟨world, .fresh program', finisher⟩ rfl _ _ (sooner world) none
    | resume reply | fail error => exact .inl ⟨rfl, same⟩
    | cancel reason => exact .inl ⟨rfl, rfl, rfl, .fresh sooner⟩
    | abort reason =>
      exact .inl (@conclude_beside _ ⟨world, .fresh program, finisher⟩
        ⟨world, .fresh program', finisher⟩ rfl world _)
  | @waiting p next next' goesOn =>
    have settles (r : Resumption) := @settle_beside _ ⟨world, .waiting p next, finisher⟩
      ⟨world, .waiting p next', finisher⟩ rfl _ _ (goesOn r world) (some p)
    cases m with
    | start => exact .inl ⟨rfl, rfl, rfl, .waiting goesOn⟩
    | resume reply => exact settles (.reply reply)
    | fail error => exact settles (.leave (.failed error))
    | abort reason => exact settles (.leave (.aborted reason))
    | cancel reason => exact .inl ⟨rfl, rfl, rfl, .waiting goesOn⟩
  | finished result => exact settled (.inl ⟨result, rfl⟩)
  | broken last => exact settled (.inr ⟨last, rfl⟩)

/-! ## Histories -/

/-- A run that concludes asks nothing. -/
theorem conclude_asks_nothing (s : Session η) (result : RunResult) :
    (s.conclude result).1.prompt? = none := by
  rcases complete_fst { s with world := s.world.note .info .runs ("script " ++ result.summary) }
    result with ⟨final, gives⟩ | ⟨d, -, gives⟩
  · rw [conclude, gives]
    rfl
  · rw [conclude, gives]
    rfl

/-- A run that concludes asks nothing, and leaves the calls and the variables to a modest
finisher. -/
theorem conclude_settled (modest : s.finisher.Modest) (result : RunResult) :
    (s.conclude result).2.Settled ∧ (s.conclude result).1.prompt? = none ∧
      (s.conclude result).2.world.calls = s.world.calls ∧
      (s.conclude result).2.world.context.scopes = s.world.context.scopes := by
  refine ⟨.inl (conclude_finished s result), s.conclude_asks_nothing result, ?_, ?_⟩
  · rw [conclude, complete_snd]
    exact modest.calls _ _
  · rw [conclude, complete_snd]
    exact modest.scopes _ _

/-- Sessions that part are over, with the same calls and the same variables. -/
theorem Parted.settled {out out' : Report × Session η} (parted : Parted s s' out out')
    (modest : s.finisher.Modest) (finisher : s.finisher = s'.finisher) :
    (out.2.Settled ∧ out'.2.Settled) ∧ (out.1.prompt? = none ∧ out'.1.prompt? = none) ∧
      out.2.world.calls = out'.2.world.calls ∧
      out.2.world.context.scopes = out'.2.world.context.scopes := by
  have modest' : s'.finisher.Modest := finisher ▸ modest
  cases parted with
  | @ended w reason cancelled aborts succeeds =>
    subst aborts succeeds
    obtain ⟨isOver, silent, calls, scopes⟩ :=
      conclude_settled (s := { s with world := w }) modest (resultOf w .aborted none (some reason))
    obtain ⟨isOver', silent', calls', scopes'⟩ :=
      conclude_settled (s := { s' with world := w }) modest' (resultOf w .success none none)
    exact ⟨⟨isOver, isOver'⟩, ⟨silent, silent'⟩, calls.trans calls'.symm, scopes.trans scopes'.symm⟩
  | @overflow w reason cause last cancelled aborts breaks =>
    subst aborts breaks
    obtain ⟨isOver, silent, calls, scopes⟩ :=
      conclude_settled (s := { s with world := w }) modest (resultOf w .aborted none (some reason))
    exact ⟨⟨isOver, .inr ⟨last, rfl⟩⟩, ⟨silent, rfl⟩, calls, scopes⟩

/-- Over a history, sessions stay side by side or part once. They never differ in the questions, the
calls and the variables. -/
theorem Beside.moves (beside : s.Beside s') (modest : s.finisher.Modest) (moves : List Move) :
    ((s.reports moves).filterMap Report.prompt? = (s'.reports moves).filterMap Report.prompt? ∧
      (moves.foldl Session.move s).world.calls = (moves.foldl Session.move s').world.calls ∧
      (moves.foldl Session.move s).world.context.scopes =
        (moves.foldl Session.move s').world.context.scopes) ∧
    (s.reports moves = s'.reports moves ∧
        (moves.foldl Session.move s).Beside (moves.foldl Session.move s') ∨
      ∃ before m after, moves = before ++ m :: after ∧ s.reports before = s'.reports before ∧
        (before.foldl Session.move s).Beside (before.foldl Session.move s') ∧
        Parted (before.foldl Session.move s) (before.foldl Session.move s')
          ((before.foldl Session.move s).report m, (before.foldl Session.move s).move m)
          ((before.foldl Session.move s').report m, (before.foldl Session.move s').move m)) := by
  induction moves generalizing s s' with
  | nil =>
    refine ⟨⟨rfl, ?_, ?_⟩, .inl ⟨rfl, beside⟩⟩
    · exact congrArg World.calls beside.world
    · exact congrArg (·.context.scopes) beside.world
  | cons m moves ih =>
    have modest₁ : (s.move m).finisher.Modest := (s.step m).finisher ▸ modest
    rcases beside.move m with ⟨same, beside'⟩ | parted
    · obtain ⟨⟨prompts, calls, scopes⟩, course⟩ := ih beside' modest₁
      refine ⟨⟨?_, calls, scopes⟩, ?_⟩
      · rw [reports, reports, same, List.filterMap_cons, List.filterMap_cons, prompts]
      · rcases course with ⟨reports', beside''⟩ | ⟨before, m', after, split, reports', side, part⟩
        · refine .inl ⟨?_, beside''⟩
          rw [reports, reports, same, reports']
        · refine .inr ⟨m :: before, m', after, congrArg (m :: ·) split, ?_, side, part⟩
          rw [reports, reports, same, reports']
    · have modest₂ : (s'.move m).finisher.Modest := by
        rw [(s'.step m).finisher, ← beside.finisher]
        exact modest
      obtain ⟨⟨isOver, isOver'⟩, ⟨silent, silent'⟩, calls, scopes⟩ :=
        parted.settled modest beside.finisher
      obtain ⟨none₁, calls₁, scopes₁⟩ := isOver.moves modest₁ moves
      obtain ⟨none₂, calls₂, scopes₂⟩ := isOver'.moves modest₂ moves
      refine ⟨⟨?_, ?_, ?_⟩, .inr ⟨[], m, moves, rfl, rfl, beside, parted⟩⟩
      · rw [reports, reports, List.filterMap_cons_none silent, List.filterMap_cons_none silent',
          none₁, none₂]
      · exact calls₁.trans (calls.trans calls₂.symm)
      · exact scopes₁.trans (scopes.trans scopes₂.symm)

end

end Session

/-- Where a script is read with its comments, the same moves give the same as where it is read
without them, and leave the run in the same world, unless it is cancelled: then the run with
comments may be aborted at a move where the other one comes to its end or breaks off. The questions,
the calls and the variables are the same in any case. -/
theorem commented_run_ends_sooner {η : Type} {g : Grammar} (dropped : g.retainComments = false)
    {source : Source} {kept : Block} (parsed : Block.ofSource g.withComments source = .ok kept)
    (setting : Setting η) (world : World η) {finisher : Finisher η} (modest : finisher.Modest)
    (moves : List Session.Move) :
    let commented := Session.ofScript setting kept world finisher
    let plain := Session.ofScript setting kept.uncommented world finisher
    let after (s : Session η) (moves : List Session.Move) := moves.foldl Session.move s
    Block.ofSource g source = .ok kept.uncommented ∧
      (commented.reports moves).filterMap Report.prompt? =
        (plain.reports moves).filterMap Report.prompt? ∧
      (after commented moves).world.calls = (after plain moves).world.calls ∧
      (after commented moves).world.context.scopes = (after plain moves).world.context.scopes ∧
      (commented.reports moves = plain.reports moves ∧
          (after commented moves).world = (after plain moves).world ∨
        ∃ before m later, moves = before ++ m :: later ∧
          commented.reports before = plain.reports before ∧
          (after commented before).world = (after plain before).world ∧
          Session.Parted (after commented before) (after plain before)
            ((after commented before).report m, (after commented before).move m)
            ((after plain before).report m, (after plain before).move m)) := by
  intro commented plain after
  have shed := Block.ofSource_uncommented dropped source
  rw [parsed] at shed
  have beside : commented.Beside plain := by
    refine ⟨rfl, rfl, .fresh ?_⟩
    rw [Block.uncommented_statements]
    exact Run.executeAll_sooner setting kept.statements
  obtain ⟨⟨prompts, calls, scopes⟩, course⟩ := beside.moves modest moves
  refine ⟨shed, prompts, calls, scopes, ?_⟩
  rcases course with ⟨reports, side⟩ | ⟨before, m, later, split, reports, side, parted⟩
  · exact .inl ⟨reports, side.world⟩
  · exact .inr ⟨before, m, later, split, reports, side.world, parted⟩

/-- A script that cancels its run, with a comment behind its only statement. -/
def stopThenComment : List Char := "Stop() # done".toList

/-- Both runs of the script make its call. -/
theorem stopThenComment_calls : Grammar.second.retainComments = false ∧
    (Finisher.idle : Finisher Unit).Modest ∧
    ∃ kept, Block.ofSource Grammar.second.withComments ⟨stopThenComment, none⟩ = .ok kept ∧
      Block.ofSource Grammar.second ⟨stopThenComment, none⟩ = .ok kept.uncommented ∧
      (Session.ofScript stopper kept ⟨{}, (), none, #[], #[]⟩).start.2.world.calls.size = 1 ∧
      (Session.ofScript stopper kept ⟨{}, (), none, #[], #[]⟩).start.2.world.calls =
        (Session.ofScript stopper kept.uncommented ⟨{}, (), none, #[], #[]⟩).start.2.world.calls := by
  have made : ((Block.ofSource Grammar.second.withComments ⟨stopThenComment, none⟩).map fun kept =>
      (Session.ofScript stopper kept ⟨{}, (), none, #[], #[]⟩).start.2.world.calls.size).toOption =
        some 1 := by
    decide +kernel
  cases parsed : Block.ofSource Grammar.second.withComments ⟨stopThenComment, none⟩ with
  | error e =>
    rw [parsed] at made
    cases made
  | ok kept =>
    rw [parsed] at made
    obtain ⟨read, -, calls, -⟩ := commented_run_ends_sooner rfl parsed stopper
      ⟨{}, (), none, #[], #[]⟩ Finisher.idle_modest [.start]
    exact ⟨rfl, Finisher.idle_modest, kept, rfl, read, Option.some.inj made, calls⟩

/-- The run of the script as a text is read by a grammar. -/
def stopRun (g : Grammar) : Option Report :=
  (Block.ofSource g ⟨stopThenComment, none⟩).toOption.map fun script =>
    (Session.ofScript stopper script ⟨{}, (), none, #[], #[]⟩).start.1

/-- The comment makes the difference between a run that is aborted and one that succeeds. -/
theorem trailing_comment_aborts :
    stopRun Grammar.second.withComments = some (.result ⟨.aborted, [], none, some "enough"⟩) ∧
      stopRun Grammar.second = some (.result ⟨.success, [], none, none⟩) := by
  decide +kernel

end InstallScript
