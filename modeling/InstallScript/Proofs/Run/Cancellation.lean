import InstallScript.Proofs.Run.ChronicleOfRuns
import InstallScript.Proofs.Run.Growth

/-!
Cancellation. From the moment on at which a run is cancelled, everything that it does is done in a
cancelled run (`World.Continues`). Then it only finishes the statement in progress: no boundary is
passed any more, and the calls that are still made are those that the expressions of this statement
have left. A boundary that is reached ends the run (`cancellation_ends_runs`).
-/

namespace InstallScript

variable {η : Type}

/-! ## What a cancelled run still does -/

/-- What comes after earlier events only finishes the statement in progress. No boundary is passed;
the calls are among those that the expressions of the statement have left, in order; and if its
guard lets a loop go on, so that its body is entered, nothing is done there. -/
structure Finishes (rest earlier : List Event) : Prop where
  noBoundary : ∀ m ∈ rest, ¬ m.AtBoundary
  calls : callsIn rest ≠ [] → ∃ s, statementOf earlier = some s ∧
    List.Sublist (callsSince earlier ++ callsIn rest) s.ownCalls
  bodies : ∀ later m before number counter, rest = later ++ m :: before →
    m.deed = .iteration number counter →
      later = [] ∧ ∃ span condition body,
        statementOf earlier = some (.whileLoop span condition body)

/-- Without boundaries the same statement stays in progress. -/
theorem progress_of_noBoundary {rest : List Event} (noBoundary : ∀ m ∈ rest, ¬ m.AtBoundary)
    (earlier : List Event) : statementOf (rest ++ earlier) = statementOf earlier ∧
      callsSince (rest ++ earlier) = callsSince earlier ++ callsIn rest := by
  induction rest with
  | nil => exact ⟨rfl, (List.append_nil _).symm⟩
  | cons m rest ih =>
    obtain ⟨notHere, others⟩ := List.forall_mem_cons.1 noBoundary
    obtain ⟨statement, calls⟩ := ih others
    simp only [List.cons_append, statementOf, callsSince, callsIn]
    cases deed : m.deed with
    | boundary b => exact absurd ⟨b, deed⟩ notHere
    | call c => exact ⟨statement, by simp [calls]⟩
    | iteration number counter => exact ⟨statement, calls⟩
    | excess number => exact ⟨statement, calls⟩

variable {script : Block} {base limit : Nat} {told : Exit → Prop}

/-- The calls of a run between two boundaries belong to the statement in progress. -/
theorem Orderly.calls_finish {rest earlier : List Event}
    (orderly : Orderly script base limit (rest ++ earlier))
    (noBoundary : ∀ m ∈ rest, ¬ m.AtBoundary) (some' : callsIn rest ≠ []) :
    ∃ s, statementOf earlier = some s ∧
      List.Sublist (callsSince earlier ++ callsIn rest) s.ownCalls := by
  induction rest with
  | nil => exact absurd rfl some'
  | cons m rest ih =>
    obtain ⟨-, others⟩ := List.forall_mem_cons.1 noBoundary
    obtain ⟨statement, calls⟩ := progress_of_noBoundary others earlier
    unfold callsIn at some' ⊢
    cases deed : m.deed with
    | call c =>
      obtain ⟨s, -, inProgress, left⟩ := orderly.1.belongs.call deed
      refine ⟨s, statement.symm.trans inProgress, ?_⟩
      rw [← List.append_assoc, ← calls]
      exact left
    | boundary b =>
      rw [deed] at some'
      exact ih orderly.2 others some'
    | iteration number counter =>
      rw [deed] at some'
      exact ih orderly.2 others some'
    | excess number =>
      rw [deed] at some'
      exact ih orderly.2 others some'

/-- What a cancelled run does without coming to a boundary finishes the statement in progress. -/
theorem Orderly.finishes {rest earlier : List Event}
    (orderly : Orderly script base limit (rest ++ earlier))
    (noBoundary : ∀ m ∈ rest, ¬ m.AtBoundary) (cancelled : ∀ m ∈ rest, m.cancelled ≠ none) :
    Finishes rest earlier := by
  refine ⟨noBoundary, orderly.calls_finish noBoundary, ?_⟩
  rintro later m before number counter rfl deed
  have belongs : m.Belongs script limit (before ++ earlier) := by
    have follows : m.Follows script base limit (before ++ earlier) := by
      rw [List.append_assoc, List.cons_append] at orderly
      exact orderly.follows
    exact follows.belongs
  obtain ⟨-, passed⟩ := List.forall_mem_append.1 noBoundary
  obtain ⟨statement, -⟩ := progress_of_noBoundary (List.forall_mem_cons.1 passed).2 earlier
  constructor
  · -- the event after the entry of a body is a boundary
    rcases List.eq_nil_or_concat later with none | ⟨others, n, rfl⟩
    · exact none
    · rw [List.concat_eq_append, List.append_assoc, List.append_assoc] at orderly
      have entered : Entered (m :: before ++ earlier) := ⟨m, _, number, counter, rfl, deed⟩
      have boundary := orderly.follows.entered entered
      refine absurd boundary (noBoundary n ?_)
      simp
  · obtain ⟨body, blocks, s, name, -, inProgress, repeats, -, -, checked, -⟩ :=
      belongs.iteration deed
    cases repeats' : counter with
    | none =>
      rw [repeats'] at repeats
      cases repeats
      exact ⟨_, _, _, statement.symm.trans inProgress⟩
    | some c =>
      have open' := checked (by rw [repeats']; rfl)
      exact absurd open' (cancelled m (by simp))

/-! ## Sessions -/

namespace Session

variable {s : Session (η × List Event)}

/-- A boundary that finds the run cancelled is the last event, and the run is over. -/
theorem Chronicled.halted (chronicled : s.Chronicled script base limit told) {m : Event}
    {earlier : List Event} (trace : s.world.host.2 = m :: earlier) (boundary : m.AtBoundary)
    {reason : String} (cancelled : m.cancelled = some reason) :
    ∃ result, s.phase = .finished result ∧ result.status = .aborted ∧
      result.abortReason = some reason := by
  have stopped {why : Exit} (ended : Ended script base limit told base why s.world) :
      why = .aborted reason := by
    rcases ended.ending with ⟨reason', rfl, m', earlier', trace', -, cancelled'⟩ | ⟨goesOn, -⟩
    · cases trace.symm.trans trace'
      cases cancelled.symm.trans cancelled'
      rfl
    · have open' := goesOn m (trace ▸ List.mem_cons_self) boundary
      cases cancelled.symm.trans open'
  cases chronicled with
  | fresh _ none => cases trace.symm.trans none
  | waiting _ suspended =>
    obtain ⟨m', earlier', c, trace', deed, -⟩ := suspended.atCall
    cases trace.symm.trans trace'
    obtain ⟨b, deed'⟩ := boundary
    cases deed.symm.trans deed'
  | @finished result _ phase ended showing =>
    cases stopped ended
    obtain ⟨status, -, aborted⟩ := showing
    exact ⟨result, phase, status, aborted⟩
  | broken _ ended => cases stopped ended

/-- What a run does from a moment on at which it is cancelled: it finishes the statement in
progress, and if it comes to a boundary it ends there, cancelled. -/
theorem Chronicled.winds_down (chronicled : s.Chronicled script base limit told)
    {later earlier : List Event} (trace : s.world.host.2 = later ++ earlier)
    (cancelled : ∀ m ∈ later, m.cancelled ≠ none) :
    ∃ rest, Finishes rest earlier ∧ (later = rest ∨ ∃ m reason result, later = m :: rest ∧
      m.AtBoundary ∧ m.cancelled = some reason ∧ s.phase = .finished result ∧
        result.status = .aborted ∧ result.abortReason = some reason) := by
  have orderly := chronicled.orderly
  rw [trace] at orderly
  cases later with
  | nil => exact ⟨[], orderly.finishes (List.forall_mem_nil _) cancelled, .inl rfl⟩
  | cons m rest =>
    obtain ⟨here, others⟩ := List.forall_mem_cons.1 cancelled
    have noBoundary : ∀ n ∈ rest, ¬ n.AtBoundary := by
      intro n member boundary
      exact others n member (orderly.1.goesOn n (List.mem_append_left _ member) boundary)
    by_cases boundary : m.AtBoundary
    · obtain ⟨reason, set⟩ := Option.ne_none_iff_exists'.1 here
      obtain ⟨result, phase, status, aborted⟩ := chronicled.halted trace boundary set
      exact ⟨rest, orderly.2.finishes noBoundary others,
        .inr ⟨m, reason, result, rfl, boundary, set, phase, status, aborted⟩⟩
    · exact ⟨m :: rest, orderly.finishes (List.forall_mem_cons.2 ⟨boundary, noBoundary⟩) cancelled,
        .inl rfl⟩

/-- How a run has ended: cancelled at a boundary, which was its last event; or without having come
to a boundary since it was cancelled, if it was. Then it has succeeded with nothing left to do, has
failed, or has been told to end. -/
theorem Chronicled.result_cases (chronicled : s.Chronicled script base limit told)
    {result : RunResult} (phase : s.phase = .finished result) (kind : ¬ told .returned) :
    (∃ reason, Halted s.world.host.2 reason ∧ result.status = .aborted ∧
        result.abortReason = some reason) ∨
      GoesOn s.world.host.2 ∧
        (result.status = .success ∧ ((∃ span, statementOf s.world.host.2 = some (.ret span)) ∨
            Through script.statements none s.world.host.2) ∨
          result.status = .failed ∧ result.error ≠ none ∨
          ∃ reason, result.status = .aborted ∧ result.abortReason = some reason ∧
            told (.aborted reason)) := by
  cases chronicled with
  | fresh phase' | waiting phase' | broken phase' => cases phase.symm.trans phase'
  | @finished _ why phase' ended showing =>
    cases phase.symm.trans phase'
    rcases ended.ending with ⟨reason, rfl, halted⟩ | ⟨goesOn, ending⟩
    · exact .inl ⟨reason, halted, showing.1, showing.2.2⟩
    · refine .inr ⟨goesOn, ?_⟩
      cases why with
      | returned =>
        refine .inl ⟨showing.1, ?_⟩
        cases ending with
        | returned last => exact .inl ⟨_, last⟩
        | complete through => exact .inr through
        | told holds => exact absurd holds kind
      | failed e =>
        obtain ⟨status, ⟨d, error, -⟩, -⟩ := showing
        exact .inr (.inl ⟨status, by simp [error]⟩)
      | aborted reason =>
        cases ending with
        | told holds => exact .inr (.inr ⟨reason, showing.1, showing.2.2, holds⟩)
      | crashed d => exact absurd showing id

end Session

/-- Cancellation is seen at the next boundary. A session shows the same as one that keeps a trace,
and the calls of its host are those in the trace. From any point of its history on at which the run
is cancelled, its events are those of a cancelled run, and so are all events behind an event that is
one. Such events only finish the statement in progress, up to a boundary, at which the run ends with
the reason for which it was cancelled. A run that ends without coming to a boundary any more has
succeeded because nothing was left to do, has failed, or was told by a move to end. -/
theorem cancellation_ends_runs (setting : Setting η) (script : Block) (world : World η)
    {finisher : Finisher η} (modest : finisher.Modest) (moves : List Session.Move) :
    let traced (moves : List Session.Move) :=
      moves.foldl Session.move (Session.ofTraced setting script world finisher)
    let trace := (traced moves).world.host.2
    (moves.foldl Session.move (Session.ofScript setting script world finisher)).Same
        (traced moves) ∧
      (∃ made, (traced moves).world.calls.toList = world.calls.toList ++ made ∧
        List.Forall₂ (Call.Made setting.catalog) (callsIn trace) made) ∧
      (∀ before after, moves = before ++ after → (traced before).world.cancelled ≠ none →
        ∃ later, trace = later ++ (traced before).world.host.2 ∧
          ∀ m ∈ later, m.cancelled ≠ none) ∧
      (∀ later m earlier, trace = later ++ m :: earlier → m.cancelled ≠ none →
        ∀ n ∈ later, n.cancelled ≠ none) ∧
      (∀ later earlier, trace = later ++ earlier → (∀ m ∈ later, m.cancelled ≠ none) →
        ∃ rest, Finishes rest earlier ∧ (later = rest ∨ ∃ m reason result, later = m :: rest ∧
          m.AtBoundary ∧ m.cancelled = some reason ∧ (traced moves).phase = .finished result ∧
            result.status = .aborted ∧ result.abortReason = some reason)) ∧
      ∀ result, (traced moves).phase = .finished result →
        (∃ reason, Halted trace reason ∧ result.status = .aborted ∧
            result.abortReason = some reason) ∨
          GoesOn trace ∧
            (result.status = .success ∧ ((∃ span, statementOf trace = some (.ret span)) ∨
                Through script.statements none trace) ∨
              result.status = .failed ∧ result.error ≠ none ∨
              ∃ reason, result.status = .aborted ∧ result.abortReason = some reason ∧
                Session.ToldBy moves (.aborted reason)) := by
  intro traced trace
  have chronicled := Session.traced_chronicled setting script world modest moves
  refine ⟨Session.traced_same setting script world finisher moves modest.keepsRun, ?_, ?_, ?_,
    fun later earlier => chronicled.winds_down, fun result phase =>
      chronicled.result_cases phase (Session.not_toldBy_returned moves)⟩
  · exact Session.traced_calls setting script world modest moves
  · rintro before after rfl cancelled
    obtain ⟨later, made, eq, marks, -⟩ :=
      (Session.traced_continues setting script world modest before after).trace
    exact ⟨later, eq, fun m member open' => cancelled (marks m member open')⟩
  · intro later m earlier eq cancelled n member open'
    obtain ⟨later', between, rfl⟩ := List.append_of_mem member
    have eq : trace = later' ++ n :: (between ++ m :: earlier) := by simpa using eq
    have orderly : Orderly script world.context.scopes.depth setting.maxIterations trace :=
      chronicled.orderly
    rw [eq] at orderly
    exact cancelled (orderly.follows.lasts open' m (by simp))

/-- A host whose only function cancels the run. -/
def stopper : Setting Unit where
  catalog := { functions := [{ name := "Stop", returns := .bool }] }
  host _ _ directory state :=
    { outcome := .value (.bool true), host := state, directory, cancel := some "enough" }

/-- A script that cancels its run in the guard of a loop. -/
def stoppedInGuard : Block :=
  let stop : Call := .mk default "Stop" [] []
  .mk default [.whileLoop default (.binary default .and (.call stop) (.call stop))
    (.mk default [.call stop])]

/-- Whether the run comes to a boundary. -/
def Event.isAtBoundary (m : Event) : Bool :=
  match m.deed with
  | .boundary _ => true
  | _ => false

theorem Event.atBoundary_of_isAtBoundary {m : Event} (is : m.isAtBoundary = true) :
    m.AtBoundary := by
  unfold isAtBoundary at is
  split at is
  · rename_i b deed
    exact ⟨b, deed⟩
  · cases is

/-- The session of the script, with its trace. -/
def stopped : Session (Unit × List Event) :=
  [.start].foldl Session.move
    (Session.ofTraced stopper stoppedInGuard ⟨{}, (), none, #[], #[]⟩ Finisher.idle)

theorem stopped_in_guard :
    stopped.world.calls.size = 2 ∧ ∃ m rest earlier result,
      stopped.world.host.2 = m :: (rest ++ earlier) ∧ m.AtBoundary ∧ rest.length = 2 ∧
        Finishes rest earlier ∧ stopped.phase = .finished result ∧ result.status = .aborted ∧
          result.abortReason = some "enough" := by
  have shape : stopped.world.host.2.map (fun m => (m.isAtBoundary, m.cancelled)) =
      [(true, some "enough"), (false, some "enough"), (false, some "enough"), (false, none),
        (true, none), (true, none)] := by decide +kernel
  refine ⟨by decide +kernel, ?_⟩
  obtain ⟨-, -, -, -, windsDown, -⟩ := cancellation_ends_runs stopper stoppedInGuard
    ⟨{}, (), none, #[], #[]⟩ Finisher.idle_modest [.start]
  obtain ⟨m, trace, eq, first, shape⟩ := List.map_eq_cons_iff.1 shape
  obtain ⟨entry, trace', rfl, second, shape⟩ := List.map_eq_cons_iff.1 shape
  obtain ⟨call, earlier, rfl, third, -⟩ := List.map_eq_cons_iff.1 shape
  injection first with boundary set
  have cancelled : ∀ n ∈ [m, entry, call], n.cancelled ≠ none := by
    injection second with _ set'
    injection third with _ set''
    simp [set, set', set'']
  have atBoundary := Event.atBoundary_of_isAtBoundary boundary
  obtain ⟨rest, finishes, whole | ⟨m', reason, result, split, -, set', phase, status, aborted⟩⟩ :=
    windsDown [m, entry, call] earlier eq cancelled
  · exact absurd atBoundary (finishes.noBoundary m (whole ▸ List.mem_cons_self))
  · cases split
    cases set.symm.trans set'
    exact ⟨m, [entry, call], earlier, result, eq, atBoundary, rfl, finishes, phase, status, aborted⟩

end InstallScript
