import InstallScript.Proofs.Run.Agreement
import InstallScript.Proofs.Run.CommentedRuns

/-!
Sessions of two scripts that come to the same. The same moves raise the same questions in both and
bring both to the same result, as far as the runs are to agree; or the first run has failed at a
variable that is never bound (`Session.Agrees.moves`). Finishers have to treat such runs alike;
those of the library do.
-/

namespace InstallScript

variable {η : Type} {a : Accord}

/-! ## Results and finishers -/

/-- Results that say the same, stretches and the words of errors aside. -/
structure RunResult.Agrees (a : Accord) (r r' : RunResult) : Prop where
  status : r'.status = r.status
  error : r'.error.map (·.code) = r.error.map (·.code)
  abortReason : r'.abortReason = r.abortReason
  warnings : r'.warnings.map Diagnostic.said = r.warnings.map Diagnostic.said
  exactly : a.exact → r' = r

/-- A finisher that treats runs alike that have come to the same. -/
structure Finisher.Fair (a : Accord) (finisher : Finisher η) : Prop where
  result : ∀ {r r' : RunResult} {w w' : World η}, r.Agrees a r' → w.Agrees a w' →
    ((finisher.effect (some r) w).1.getD r).Agrees a ((finisher.effect (some r') w').1.getD r')
  world : ∀ {r r' : RunResult} {w w' : World η}, r.Agrees a r' → w.Agrees a w' →
    (finisher.effect (some r) w).2.Agrees a (finisher.effect (some r') w').2
  lapsed : ∀ {w w' : World η}, w.Agrees a w' →
    (finisher.effect none w).2.Agrees a (finisher.effect none w').2

/-- What finishers of two runs that are to agree have to be like. Only where a run may fail without
the other one have they to leave the run as it has ended. -/
structure Finisher.Treats (a : Accord) (finisher : Finisher η) : Prop where
  fair : finisher.Fair a
  modest : ∀ {span name}, a.replaced span name → finisher.Modest

theorem Finisher.idle_fair : (Finisher.idle : Finisher η).Fair a :=
  ⟨fun results _ => results, fun _ worlds => worlds, fun worlds => worlds⟩

/-- Where the runs are to agree exactly, a finisher has only to leave the variables alone. -/
theorem Finisher.Modest.fair {finisher : Finisher η} (modest : finisher.Modest) (exact : a.exact) :
    finisher.Fair a := by
  have worlds {w w' : World η} (result : Option RunResult) (agrees : w.Agrees a w') :
      (finisher.effect result w).2.Agrees a (finisher.effect result w').2 := by
    rw [agrees.exactly exact]
    refine ⟨rfl, rfl, rfl, rfl, rfl, rfl, rfl, ?_, fun _ => rfl⟩
    rw [modest.scopes]
    exact agrees.obeys
  refine ⟨fun results agrees => ?_, fun results agrees => ?_, fun agrees => worlds none agrees⟩
  · rw [results.exactly exact, agrees.exactly exact]
    exact ⟨rfl, rfl, rfl, rfl, fun _ => rfl⟩
  · rw [results.exactly exact]
    exact worlds _ agrees

namespace Installation

/-- States between two files that have come to the same. -/
def StatesAgree (a : Accord) (state state' : RunResult × World Installation) : Prop :=
  state.1.Agrees a state'.1 ∧ state.2.Agrees a state'.2

theorem updateFile_agrees (edits : List IniEdit) (file : List String)
    {state state' : RunResult × World Installation} (agrees : StatesAgree a state state') :
    StatesAgree a (updateFile edits state file) (updateFile edits state' file) := by
  obtain ⟨result, world⟩ := state
  obtain ⟨result', world'⟩ := state'
  obtain ⟨results, worlds⟩ := agrees
  dsimp only at results worlds
  unfold updateFile
  dsimp only
  rw [worlds.host]
  split
  · exact ⟨results, (worlds.withHost _).note _ _ fun _ => rfl⟩
  · refine ⟨⟨results.status, results.error, results.abortReason, ?_, fun exact => ?_⟩,
      ((worlds.withHost _).note _ _ fun _ => rfl).warn _ _ fun _ => rfl⟩
    · rw [List.map_append, List.map_append, results.warnings]
      rfl
    · rw [results.exactly exact, worlds.exactly exact]

theorem updateFiles_agrees (edits : List IniEdit) (files : List (List String))
    {state state' : RunResult × World Installation} (agrees : StatesAgree a state state') :
    StatesAgree a (files.foldl (updateFile edits) state)
      (files.foldl (updateFile edits) state') := by
  induction files generalizing state state' with
  | nil => exact agrees
  | cons file files ih => exact ih (updateFile_agrees edits file agrees)

theorem dropEdits_agrees {w w' : World Installation} (agrees : w.Agrees a w') :
    (dropEdits w).Agrees a (dropEdits w') := by
  unfold dropEdits
  rw [agrees.host]
  exact agrees.withHost _

/-- The finisher of settings files goes by the status of a result and by what is queued. -/
theorem settleEdits_fair : settleEdits.Fair a := by
  have settles {r r' : RunResult} {w w' : World Installation} (results : r.Agrees a r')
      (worlds : w.Agrees a w') :
      ((settleEdits.effect (some r) w).1.getD r).Agrees a
          ((settleEdits.effect (some r') w').1.getD r') ∧
        (settleEdits.effect (some r) w).2.Agrees a (settleEdits.effect (some r') w').2 := by
    unfold Finisher.effect settleEdits
    dsimp only
    rw [worlds.host, results.status]
    by_cases noEdits : w.host.pendingEdits.isEmpty = true
    · rw [if_pos noEdits, if_pos noEdits]
      exact ⟨results, worlds⟩
    · rw [if_neg noEdits, if_neg noEdits]
      by_cases succeeded : r.status = .success
      · rw [if_pos succeeded, if_pos succeeded]
        have start : StatesAgree a (r, w) (r', w') := ⟨results, worlds⟩
        obtain ⟨results', worlds'⟩ := updateFiles_agrees w.host.pendingEdits
          (editedFiles w.host.pendingEdits) start
        exact ⟨results', dropEdits_agrees worlds'⟩
      · rw [if_neg succeeded, if_neg succeeded]
        exact ⟨results, dropEdits_agrees (worlds.note _ _ fun _ => rfl)⟩
  refine ⟨fun results worlds => (settles results worlds).1,
    fun results worlds => (settles results worlds).2, fun {w w'} worlds => ?_⟩
  rw [settleEdits_needsResult w, settleEdits_needsResult w']
  exact worlds

end Installation

/-! ## Sessions -/

namespace Session

/-- How far two runs have come that have come to the same. -/
inductive PhasesAgree (a : Accord) : Phase η → Phase η → Prop
  | fresh {program program' : Action (World η) Unit}
    (agrees : Action.Agrees a (fun _ => True) program program') :
    PhasesAgree a (.fresh program) (.fresh program')
  | waiting {p : Prompt} {next next' : Resumption → World η → Course (World η) Unit}
    (goesOn : ∀ r t t', t.Agrees a t' → (next r t).Agrees a (fun _ => True) (next' r t')) :
    PhasesAgree a (.waiting p next) (.waiting p next')
  | finished {result result' : RunResult} (results : result.Agrees a result') :
    PhasesAgree a (.finished result) (.finished result')
  | broken (last : Option Prompt) : PhasesAgree a (.broken last) (.broken last)

/-- Sessions of two scripts that have come to the same so far. -/
structure Agrees (a : Accord) (s s' : Session η) : Prop where
  worlds : s.world.Agrees a s'.world
  finisher : s'.finisher = s.finisher
  phases : PhasesAgree a s.phase s'.phase

/-- The run has failed at a variable that is not bound, and that the other script may have something
else for. -/
structure Unbound (a : Accord) (s : Session η) : Prop where
  error : ∃ span name result d, a.replaced span name ∧ s.phase = .finished result ∧
    result.status = .failed ∧ result.error = some d ∧ d.code = "E401" ∧
    d.message = (Fault.undefinedVariable name).message ∧ d.span = some span
  obeys : s.world.context.scopes.Obeys a

variable {s s' : Session η}

/-! ### One move -/

theorem resultOf_agrees {w w' : World η} (worlds : w.Agrees a w') (status : RunStatus)
    (abortReason : Option String) :
    (resultOf w status none abortReason).Agrees a (resultOf w' status none abortReason) :=
  ⟨rfl, rfl, rfl, worlds.warnings, fun exact => by rw [worlds.exactly exact]⟩

/-- Ends that agree give results that agree, or the same defect. -/
theorem resultOfExit_agrees {w w' : World η} (worlds : w.Agrees a w') {why why' : Exit}
    (exits : why.Agrees a why') :
    (∃ r r', resultOfExit w why = .ok r ∧ resultOfExit w' why' = .ok r' ∧ r.Agrees a r') ∨
      ∃ d, resultOfExit w why = .error d ∧ resultOfExit w' why' = .error d := by
  have failed {error error' : ScriptError} (codes : error.fault.code = error'.fault.code)
      (exactly : a.exact → error' = error) :
      ∃ r r', resultOfExit w (.failed error) = .ok r ∧ resultOfExit w' (.failed error') = .ok r' ∧
        r.Agrees a r' := by
    refine ⟨_, _, rfl, rfl, rfl, ?_, rfl, worlds.warnings, fun exact => ?_⟩
    · show some (error'.withLineIfMissing _).fault.code =
        some (error.withLineIfMissing _).fault.code
      rw [ScriptError.withLineIfMissing_fault, ScriptError.withLineIfMissing_fault, codes]
    · rw [worlds.exactly exact, exactly exact]
  cases exits with
  | same =>
    cases why with
    | returned => exact .inl ⟨_, _, rfl, rfl, resultOf_agrees worlds _ _⟩
    | aborted reason => exact .inl ⟨_, _, rfl, rfl, resultOf_agrees worlds _ _⟩
    | failed error => exact .inl (failed rfl fun _ => rfl)
    | crashed d => exact .inr ⟨d, rfl, rfl⟩
  | failed loose codes => exact .inl (failed codes fun exact => absurd exact loose)

theorem conclude_agrees (fair : s.finisher.Fair a) (worlds : s.world.Agrees a s'.world)
    (finisher : s'.finisher = s.finisher) {r r' : RunResult} (results : r.Agrees a r') :
    (s.conclude r).2.Agrees a (s'.conclude r').2 := by
  have noted : World.Agrees a (s.world.note .info .runs ("script " ++ r.summary))
      (s'.world.note .info .runs ("script " ++ r'.summary)) :=
    worlds.note _ _ fun exact => by rw [results.exactly exact]
  rw [conclude, conclude, complete_snd, complete_snd]
  dsimp only
  rw [finisher]
  exact ⟨fair.world results noted, rfl, .finished (fair.result results noted)⟩

/-- A run that comes to a variable that is not bound fails there. -/
theorem settle_unbound (modest : s.finisher.Modest) {span : Span} {name : String}
    (replaced : a.replaced span name) {w : World η} (obeys : w.context.scopes.Obeys a)
    (last : Option Prompt) : (s.settle last (.exit (.unbound span name) w)).2.Unbound a := by
  rw [settle_of_ok rfl, conclude, complete_snd]
  dsimp only
  constructor
  · obtain ⟨warnings, result⟩ := modest.result
      (resultOf w .failed (some (ScriptError.withLineIfMissing
        ⟨.undefinedVariable name, some span, none⟩ w.context.sourceLines).diagnostic) none) _
    exact ⟨span, name, _, _, replaced, congrArg Phase.finished result, rfl, rfl, rfl, rfl, rfl⟩
  · rw [modest.scopes]
    exact obeys

/-- What a step of both sessions comes to: they agree and ask the same, or the first run has failed
at a variable that is not bound. -/
def Agree (a : Accord) (out out' : Report × Session η) : Prop :=
  out.1.prompt? = out'.1.prompt? ∧ out.2.Agrees a out'.2 ∨
    out.1.prompt? = none ∧ out.2.Unbound a

theorem settle_agrees (treats : s.finisher.Treats a) (finisher : s'.finisher = s.finisher)
    {c c' : Course (World η) Unit} (agrees : c.Agrees a (fun _ => True) c') (last : Option Prompt) :
    Agree a (s.settle last c) (s'.settle last c') := by
  have concludes {w w' : World η} (worlds : w.Agrees a w') {r r' : RunResult}
      (results : r.Agrees a r') :
      Agree a (conclude { s with world := w } r) (conclude { s' with world := w' } r') := by
    refine .inl ⟨(conclude_asks_nothing _ r).trans (conclude_asks_nothing _ r').symm, ?_⟩
    exact @conclude_agrees _ _ { s with world := w } { s' with world := w' } treats.fair worlds
      finisher _ _ results
  cases agrees with
  | done _ worlds => exact concludes worlds (resultOf_agrees worlds _ _)
  | exit exits worlds =>
    rcases resultOfExit_agrees worlds exits with ⟨r, r', eq, eq', results⟩ | ⟨d, eq, eq'⟩
    · rw [settle_of_ok eq, settle_of_ok eq']
      exact concludes worlds results
    · rw [settle_of_error eq, settle_of_error eq']
      exact .inl ⟨rfl, worlds, finisher, .broken last⟩
  | ask worlds goesOn => exact .inl ⟨rfl, worlds, finisher, .waiting goesOn⟩
  | @unbound span name w _ replaced obeys =>
    refine .inr ⟨?_, settle_unbound (treats.modest replaced) replaced obeys last⟩
    rw [settle_of_ok rfl]
    exact conclude_asks_nothing _ _

/-- A run that had broken off is over without a result. -/
theorem resume_broken {p : Prompt} (broken : s.phase = .broken (some p)) (reply : Reply) :
    (s.resume reply).1.prompt? = none ∧ (s.resume reply).2 =
      { s with world := (s.finisher.effect none s.world).2, phase := .broken none } := by
  unfold resume
  rw [broken]
  dsimp only
  split
  · rename_i acted world acts
    rw [Finisher.effect_of_ok acts]
    exact ⟨rfl, rfl⟩
  · rename_i d breaks
    rw [Finisher.effect_of_error breaks]
    exact ⟨rfl, rfl⟩

/-- The same move keeps sessions in agreement, or the first run fails at a variable that is not
bound. -/
theorem Agrees.move (agrees : s.Agrees a s') (treats : s.finisher.Treats a) (m : Move) :
    Agree a (s.report m, s.move m) (s'.report m, s'.move m) := by
  obtain ⟨world, phase, finisher⟩ := s
  obtain ⟨world', phase', finisher'⟩ := s'
  obtain ⟨worlds, same, phases⟩ := agrees
  dsimp only at worlds same phases treats
  subst same
  cases phases with
  | @fresh program program' programs =>
    cases m with
    | start =>
      exact @settle_agrees _ _ ⟨world, .fresh program, finisher'⟩
        ⟨world', .fresh program', finisher'⟩ treats rfl _ _ (programs _ _ worlds) none
    | resume | fail => exact .inl ⟨rfl, worlds, rfl, .fresh programs⟩
    | cancel reason => exact .inl ⟨rfl, worlds.cancel reason, rfl, .fresh programs⟩
    | abort reason =>
      exact @settle_agrees _ _ ⟨world, .fresh program, finisher'⟩
        ⟨world', .fresh program', finisher'⟩ treats rfl (.exit (.aborted reason) world)
        (.exit (.aborted reason) world') (.exit .same worlds) none
  | @waiting p next next' goesOn =>
    have settles (r : Resumption) := @settle_agrees _ _ ⟨world, .waiting p next, finisher'⟩
      ⟨world', .waiting p next', finisher'⟩ treats rfl _ _ (goesOn r _ _ worlds) (some p)
    cases m with
    | start => exact .inl ⟨rfl, worlds, rfl, .waiting goesOn⟩
    | resume reply => exact settles (.reply reply)
    | fail error => exact settles (.leave (.failed error))
    | abort reason => exact settles (.leave (.aborted reason))
    | cancel reason => exact .inl ⟨rfl, worlds.cancel reason, rfl, .waiting goesOn⟩
  | finished results =>
    cases m with
    | start | resume | fail | abort => exact .inl ⟨rfl, worlds, rfl, .finished results⟩
    | cancel reason => exact .inl ⟨rfl, worlds.cancel reason, rfl, .finished results⟩
  | broken last =>
    cases m with
    | start | abort => exact .inl ⟨rfl, worlds, rfl, .broken last⟩
    | fail => cases last <;> exact .inl ⟨rfl, worlds, rfl, .broken _⟩
    | cancel reason => exact .inl ⟨rfl, worlds.cancel reason, rfl, .broken last⟩
    | resume reply =>
      cases last with
      | none => exact .inl ⟨rfl, worlds, rfl, .broken none⟩
      | some p =>
        obtain ⟨silent, lapsed⟩ :=
          @resume_broken _ ⟨world, .broken (some p), finisher'⟩ p rfl reply
        obtain ⟨silent', lapsed'⟩ :=
          @resume_broken _ ⟨world', .broken (some p), finisher'⟩ p rfl reply
        refine .inl ⟨silent.trans silent'.symm, ?_⟩
        show Agrees a (resume ⟨world, .broken (some p), finisher'⟩ reply).2
          (resume ⟨world', .broken (some p), finisher'⟩ reply).2
        rw [lapsed, lapsed']
        exact ⟨treats.fair.lapsed worlds, rfl, .broken none⟩

/-- A run that has failed keeps its result. -/
theorem Unbound.move (unbound : s.Unbound a) (m : Move) : (s.move m).Unbound a := by
  obtain ⟨⟨span, name, result, d, replaced, phase, error⟩, obeys⟩ := unbound
  obtain ⟨world, phase', finisher⟩ := s
  cases phase
  cases m <;> exact ⟨⟨span, name, result, d, replaced, rfl, error⟩, obeys⟩

/-! ### Histories -/

/-- Over a history sessions stay in agreement and ask the same, or at one of the moves the first run
fails at a variable that is not bound. -/
theorem Agrees.moves (agrees : s.Agrees a s') (treats : s.finisher.Treats a) (moves : List Move) :
    (s.reports moves).filterMap Report.prompt? = (s'.reports moves).filterMap Report.prompt? ∧
        (moves.foldl Session.move s).Agrees a (moves.foldl Session.move s') ∨
      (∃ before m later, moves = before ++ m :: later ∧
        (s.reports before).filterMap Report.prompt? = (s'.reports before).filterMap Report.prompt? ∧
        (before.foldl Session.move s).Agrees a (before.foldl Session.move s') ∧
        ((before.foldl Session.move s).move m).Unbound a) ∧
      (moves.foldl Session.move s).Unbound a := by
  induction moves generalizing s s' with
  | nil => exact .inl ⟨rfl, agrees⟩
  | cons m moves ih =>
    rcases agrees.move treats m with ⟨same, agrees'⟩ | ⟨-, unbound⟩
    · have finisher : (s.move m).finisher = s.finisher := (s.step m).finisher
      rcases ih agrees' (finisher ▸ treats) with
        ⟨prompts, later⟩ | ⟨⟨before, m', later, split, prompts, agree, unbound⟩, ends⟩
      · refine .inl ⟨?_, later⟩
        rw [reports, reports, List.filterMap_cons, List.filterMap_cons, same, prompts]
      · refine .inr ⟨⟨m :: before, m', later, congrArg (m :: ·) split, ?_, agree, unbound⟩, ends⟩
        rw [reports, reports, List.filterMap_cons, List.filterMap_cons, same, prompts]
    · refine .inr ⟨⟨[], m, moves, rfl, rfl, agrees, unbound⟩, ?_⟩
      clear ih agrees
      rw [List.foldl_cons]
      generalize s.move m = t at unbound
      induction moves generalizing t with
      | nil => exact unbound
      | cons m moves ih => exact ih _ (unbound.move m)

/-- The results of runs that have come to the same. -/
theorem Agrees.results (agrees : s.Agrees a s') :
    s.result? = none ∧ s'.result? = none ∨
      ∃ r r', s.result? = some r ∧ s'.result? = some r' ∧ r.Agrees a r' := by
  obtain ⟨world, phase, finisher⟩ := s
  obtain ⟨world', phase', finisher'⟩ := s'
  cases agrees.phases with
  | finished results => exact .inr ⟨_, _, rfl, rfl, results⟩
  | fresh | waiting | broken => exact .inl ⟨rfl, rfl⟩

/-- Scripts of one shape that name the same come to the same, from worlds that agree. -/
theorem ofScript_agrees {k : Kinship} (keeps : k.Keeps a) (setting : Setting η)
    {script script' : Block} (kin : script.Kin k script') {world world' : World η}
    (worlds : world.Agrees a world') (finisher : Finisher η) :
    (ofScript setting script world finisher).Agrees a
      (ofScript setting script' world' finisher) := by
  cases kin with
  | mk statements =>
    exact ⟨worlds, rfl, .fresh (Run.executeAll_agrees keeps setting statements)⟩

end Session

end InstallScript
