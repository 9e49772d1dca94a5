import InstallScript.Installation.Settings
import InstallScript.Run.Session

/-!
What can be done to a session, as data: a list of moves is one history of a run, in any order, and
moves that are out of place change nothing. Finishers act on a result when the run is over; those of
the library leave its error and the calls of the run as they are.
-/

namespace InstallScript

/-- What becomes of a result and of the world when the run is over. A finisher that breaks off
changes neither. -/
def Finisher.effect {η : Type} (finisher : Finisher η) (result : Option RunResult) (w : World η) :
    Option RunResult × World η :=
  match finisher result w with
  | .ok (acted, world) => (acted.or result, world)
  | .error _ => (result, w)

theorem Finisher.effect_of_ok {η : Type} {finisher : Finisher η} {result acted : Option RunResult}
    {w world : World η} (acts : finisher result w = .ok (acted, world)) :
    finisher.effect result w = (acted.or result, world) := by
  rw [effect, acts]

theorem Finisher.effect_of_error {η : Type} {finisher : Finisher η} {result : Option RunResult}
    {w : World η} {d : Defect} (breaks : finisher result w = .error d) :
    finisher.effect result w = (result, w) := by
  rw [effect, breaks]

/-- What can be done to a session. -/
inductive Session.Move
  | start
  | resume (reply : Reply)
  | abort (reason : String)
  | fail (error : ScriptError)
  /-- The cancellation is set from outside. -/
  | cancel (reason : String)

/-- A session after a move. -/
def Session.move {η : Type} (s : Session η) : Session.Move → Session η
  | .start => s.start.2
  | .resume reply => (s.resume reply).2
  | .abort reason => (s.abort reason).2
  | .fail error => (s.fail error).2
  | .cancel reason => s.cancel reason

namespace Session

variable {η : Type}

/-- What a move gives. -/
def report (s : Session η) : Move → Report
  | .start => s.start.1
  | .resume reply => (s.resume reply).1
  | .abort reason => (s.abort reason).1
  | .fail error => (s.fail error).1
  | .cancel _ => .nothing

/-- What moves give, in order. -/
def reports (s : Session η) : List Move → List Report
  | [] => []
  | m :: moves => s.report m :: (s.move m).reports moves

/-- The result, once there is one. -/
def result? (s : Session η) : Option RunResult :=
  match s.phase with
  | .finished result => some result
  | _ => none

/-- Whether a move is in place: a run is started once, only a waiting run takes replies and errors,
and a run may be cancelled before it starts, while it waits and when it is over. -/
def Permits (s : Session η) : Move → Prop
  | .start => ∃ program, s.phase = .fresh program
  | .resume _ | .fail _ => ∃ p next, s.phase = .waiting p next
  | .abort _ => ∀ last, s.phase ≠ .broken last
  | .cancel _ => True

/-- What a move out of place raises. -/
def Move.refusal : Move → Defect
  | .start => .alreadyStarted
  | _ => .notWaiting

/-- What a waiting run is told by a move. -/
def Move.told? : Move → Option Resumption
  | .start | .cancel _ => none
  | .resume reply => some (.reply reply)
  | .abort reason => some (.leave (.aborted reason))
  | .fail error => some (.leave (.failed error))

/-- Nobody ends a waiting run with a defect. -/
theorem Move.told_ne_crashed {m : Move} {r : Resumption} (told : m.told? = some r) (d : Defect) :
    r ≠ .leave (.crashed d) := by
  rintro rfl
  cases m <;> cases told

/-- What a move can do to a session: what it gives, and the session afterwards. -/
inductive Step (s : Session η) : Move → Report × Session η → Prop
  | started {program : Action (World η) Unit} (fresh : s.phase = .fresh program) :
    s.Step .start (s.settle none (program s.world))
  | told {p : Prompt} {next : Resumption → World η → Course (World η) Unit} {m : Move}
    {r : Resumption} (waiting : s.phase = .waiting p next) (told : m.told? = some r) :
    s.Step m (s.settle (some p) (next r s.world))
  /-- The run is cancelled before it starts. -/
  | dropped {program : Action (World η) Unit} (fresh : s.phase = .fresh program)
    (reason : String) :
    s.Step (.abort reason) (s.conclude (resultOf s.world .aborted none (some reason)))
  /-- The run is over and keeps its result. -/
  | kept {result : RunResult} (ended : s.phase = .finished result) (reason : String) :
    s.Step (.abort reason) (.result result, s)
  | cancelled (reason : String) : s.Step (.cancel reason) (.nothing, s.cancel reason)
  | refused {m : Move} (outOfPlace : ¬ s.Permits m) : s.Step m (.raised m.refusal, s)
  /-- The run has broken off and is neither cancelled nor ended any more. -/
  | abandoned {m : Move} {last : Option Prompt} {d : Defect} (broken : s.phase = .broken last) :
    s.Step m (.raised d, s)
  /-- The run has broken off and is over without a result. -/
  | lapsed {reply : Reply} {last : Option Prompt} {report : Report}
    (broken : s.phase = .broken last) (silent : ∀ p, report ≠ .prompt p) :
    s.Step (.resume reply)
      (report, { s with world := (s.finisher.effect none s.world).2, phase := .broken none })

/-- A result is set once the finisher has acted on it. -/
theorem complete_snd (s : Session η) (before : RunResult) : (s.complete before).2 =
    { s with
      world := (s.finisher.effect (some before) s.world).2
      phase := .finished ((s.finisher.effect (some before) s.world).1.getD before) } := by
  unfold complete
  split
  · rename_i acted world acts
    rw [Finisher.effect_of_ok acts, Option.or_some]
    rfl
  · rename_i d breaks
    rw [Finisher.effect_of_error breaks]
    rfl

theorem complete_fst (s : Session η) (before : RunResult) :
    (∃ result, (s.complete before).1 = .result result) ∨
      ∃ d, s.finisher (some before) s.world = .error d ∧ (s.complete before).1 = .raised d := by
  unfold complete
  split
  · exact .inl ⟨_, rfl⟩
  · rename_i d breaks
    exact .inr ⟨d, breaks, rfl⟩

theorem start_step (s : Session η) : s.Step .start s.start := by
  unfold start
  split
  · rename_i program fresh
    exact .started fresh
  · rename_i other
    exact .refused fun ⟨program, fresh⟩ => other program fresh

theorem resume_step (s : Session η) (reply : Reply) : s.Step (.resume reply) (s.resume reply) := by
  unfold resume
  split
  · rename_i p next waiting
    exact .told waiting rfl
  · rename_i p broken
    dsimp only
    have lapses (report : Report) (silent : ∀ p, report ≠ .prompt p) :
        s.Step (.resume reply) (report, _) := .lapsed broken silent
    split
    · rename_i acted world acts
      rw [Finisher.effect_of_ok acts] at lapses
      exact lapses .nothing nofun
    · rename_i d breaks
      rw [Finisher.effect_of_error breaks] at lapses
      exact lapses (.raised d) nofun
  · rename_i other _
    exact .refused fun ⟨p, next, waiting⟩ => other p next waiting

theorem abort_step (s : Session η) (reason : String) :
    s.Step (.abort reason) (s.abort reason) := by
  unfold abort
  split
  · rename_i result ended
    exact .kept ended reason
  · rename_i program fresh
    exact .dropped fresh reason
  · rename_i p next waiting
    exact .told waiting rfl
  · rename_i last broken
    exact .abandoned broken

theorem fail_step (s : Session η) (error : ScriptError) :
    s.Step (.fail error) (s.fail error) := by
  unfold fail
  split
  · rename_i p next waiting
    exact .told waiting rfl
  · rename_i p broken
    exact .abandoned broken
  · rename_i other _
    exact .refused fun ⟨p, next, waiting⟩ => other p next waiting

theorem step (s : Session η) (m : Move) : s.Step m (s.report m, s.move m) := by
  cases m with
  | start => exact s.start_step
  | resume reply => exact s.resume_step reply
  | abort reason => exact s.abort_step reason
  | fail error => exact s.fail_step error
  | cancel reason => exact .cancelled reason

end Session

/-! ## Finishers -/

/-- What is done when a run is over changes neither the error of the result nor the calls made. -/
structure Finisher.KeepsRun {η : Type} (finisher : Finisher η) : Prop where
  error : ∀ {result world acted world'}, finisher (some result) world = .ok (acted, world') →
    (acted.getD result).error = result.error
  calls : ∀ {result world acted world'}, finisher result world = .ok (acted, world') →
    world'.calls = world.calls

/-- What is done when a run is over does not change how it has ended. -/
def Finisher.KeepsStatus {η : Type} (finisher : Finisher η) : Prop :=
  ∀ result w, ((finisher.effect (some result) w).1.getD result).status = result.status

/-- Of a result a finisher changes only the warnings, and of the world neither the calls nor the
variables nor the cancellation. -/
structure Finisher.Modest {η : Type} (finisher : Finisher η) : Prop where
  result : ∀ result w, ∃ warnings,
    (finisher.effect (some result) w).1.getD result = { result with warnings }
  calls : ∀ result w, (finisher.effect result w).2.calls = w.calls
  scopes : ∀ result w, (finisher.effect result w).2.context.scopes = w.context.scopes
  cancelled : ∀ result w, (finisher.effect result w).2.cancelled = w.cancelled

/-- A finisher that leaves a run alone that has broken off. -/
def Finisher.NeedsResult {η : Type} (finisher : Finisher η) : Prop :=
  ∀ w, (finisher.effect none w).2 = w

/-- What a finisher does does not depend on the log. -/
def Finisher.IgnoresLog {η : Type} (finisher : Finisher η) : Prop :=
  ∀ result (w : World η) log, ∃ log', finisher.effect result { w with log } =
    ((finisher.effect result w).1, { (finisher.effect result w).2 with log := log' })

namespace Finisher.KeepsRun

variable {η : Type} {finisher : Finisher η}

theorem effect_error (keeps : finisher.KeepsRun) (result : RunResult) (w : World η) :
    ((finisher.effect (some result) w).1.getD result).error = result.error := by
  cases acts : finisher (some result) w with
  | ok out =>
    have kept := keeps.error acts
    rw [effect_of_ok acts, Option.or_some]
    exact kept
  | error d => rw [effect_of_error acts, Option.getD_some]

theorem effect_calls (keeps : finisher.KeepsRun) (result : Option RunResult) (w : World η) :
    (finisher.effect result w).2.calls = w.calls := by
  cases acts : finisher result w with
  | ok out =>
    rw [effect_of_ok acts]
    exact keeps.calls acts
  | error d => rw [effect_of_error acts]

end Finisher.KeepsRun

namespace Finisher.Modest

variable {η : Type} {finisher : Finisher η}

theorem keepsRun (modest : finisher.Modest) : finisher.KeepsRun := by
  constructor
  · intro result world acted world' acts
    obtain ⟨warnings, eq⟩ := modest.result result world
    rw [effect_of_ok acts, Option.or_some] at eq
    have error := congrArg RunResult.error eq
    exact error
  · intro result world acted world' acts
    have calls := modest.calls result world
    rwa [effect_of_ok acts] at calls

theorem keepsStatus (modest : finisher.Modest) : finisher.KeepsStatus := by
  intro result w
  obtain ⟨warnings, eq⟩ := modest.result result w
  rw [eq]

end Finisher.Modest

theorem Finisher.idle_modest {η : Type} : (Finisher.idle : Finisher η).Modest :=
  ⟨fun result _ => ⟨result.warnings, rfl⟩, fun _ _ => rfl, fun _ _ => rfl, fun _ _ => rfl⟩

theorem Finisher.idle_keepsRun {η : Type} : (Finisher.idle : Finisher η).KeepsRun :=
  idle_modest.keepsRun

namespace Installation

/-- The same state but for the warnings, the host and the log. -/
structure AsideFromWarnings (state state' : RunResult × World Installation) : Prop where
  result : ∃ warnings, state'.1 = { state.1 with warnings }
  calls : state'.2.calls = state.2.calls
  scopes : state'.2.context.scopes = state.2.context.scopes
  cancelled : state'.2.cancelled = state.2.cancelled

theorem AsideFromWarnings.refl (state : RunResult × World Installation) :
    AsideFromWarnings state state :=
  ⟨⟨state.1.warnings, rfl⟩, rfl, rfl, rfl⟩

theorem AsideFromWarnings.trans {state state' state'' : RunResult × World Installation}
    (first : AsideFromWarnings state state') (second : AsideFromWarnings state' state'') :
    AsideFromWarnings state state'' := by
  obtain ⟨warnings, eq⟩ := first.result
  obtain ⟨warnings', eq'⟩ := second.result
  refine ⟨⟨warnings', ?_⟩, second.calls.trans first.calls, second.scopes.trans first.scopes,
    second.cancelled.trans first.cancelled⟩
  rw [eq', eq]

theorem updateFile_modest (edits : List IniEdit) (state : RunResult × World Installation)
    (file : List String) : AsideFromWarnings state (updateFile edits state file) := by
  unfold updateFile
  dsimp only
  split
  · exact ⟨⟨state.1.warnings, rfl⟩, rfl, rfl, rfl⟩
  · exact ⟨⟨_, rfl⟩, rfl, rfl, rfl⟩

theorem updateFiles_modest (edits : List IniEdit) (files : List (List String))
    (state : RunResult × World Installation) :
    AsideFromWarnings state (files.foldl (updateFile edits) state) := by
  induction files generalizing state with
  | nil => exact .refl state
  | cons file files ih => exact (updateFile_modest edits state file).trans (ih _)

/-- What the finisher of settings files does: nothing without changes that are queued; otherwise it
makes them if the run has succeeded, and drops them. -/
theorem settleEdits_cases (result : Option RunResult) (w : World Installation) :
    (w.host.pendingEdits = [] ∨ result = none) ∧ settleEdits.effect result w = (result, w) ∨
      (∃ r, result = some r ∧ r.status = .success ∧ settleEdits.effect result w =
        let state := (editedFiles w.host.pendingEdits).foldl (updateFile w.host.pendingEdits) (r, w)
        (some state.1, dropEdits state.2)) ∨
      ∃ r message, result = some r ∧ r.status ≠ .success ∧
        settleEdits.effect result w = (result, dropEdits (w.note .info .settings message)) := by
  unfold Finisher.effect settleEdits
  dsimp only
  by_cases noEdits : w.host.pendingEdits.isEmpty = true
  · rw [if_pos noEdits]
    left
    exact ⟨.inl (List.isEmpty_iff.1 noEdits), by cases result <;> rfl⟩
  · rw [if_neg noEdits]
    cases result with
    | none => exact .inl ⟨.inr rfl, rfl⟩
    | some r =>
      dsimp only
      by_cases succeeded : r.status = .success
      · rw [if_pos succeeded]
        exact .inr (.inl ⟨r, rfl, succeeded, rfl⟩)
      · rw [if_neg succeeded]
        exact .inr (.inr ⟨r, _, rfl, succeeded, rfl⟩)

theorem settleEdits_modest : settleEdits.Modest := by
  have changes (result : Option RunResult) (w : World Installation) :
      AsideFromWarnings (result.getD ⟨.success, [], none, none⟩, w)
        ((settleEdits.effect result w).1.getD (result.getD ⟨.success, [], none, none⟩),
          (settleEdits.effect result w).2) := by
    rcases settleEdits_cases result w with ⟨-, eq⟩ | ⟨r, rfl, -, eq⟩ | ⟨r, message, rfl, -, eq⟩
    · rw [eq]
      cases result <;> exact .refl _
    · rw [eq]
      obtain ⟨result, calls, scopes, cancelled⟩ := updateFiles_modest w.host.pendingEdits
        (editedFiles w.host.pendingEdits) (r, w)
      exact ⟨result, calls, scopes, cancelled⟩
    · rw [eq]
      exact ⟨⟨r.warnings, rfl⟩, rfl, rfl, rfl⟩
  exact ⟨fun result w => (changes (some result) w).result, fun result w => (changes result w).calls,
    fun result w => (changes result w).scopes, fun result w => (changes result w).cancelled⟩

theorem settleEdits_keepsRun : settleEdits.KeepsRun := settleEdits_modest.keepsRun

theorem settleEdits_keepsStatus : settleEdits.KeepsStatus := settleEdits_modest.keepsStatus

theorem settleEdits_needsResult : settleEdits.NeedsResult := by
  intro w
  rcases settleEdits_cases none w with ⟨-, eq⟩ | ⟨_, other, -⟩ | ⟨_, _, other, -⟩
  · rw [eq]
  · cases other
  · cases other

/-- The same state but for the log. -/
def AsideFromLog (state state' : RunResult × World Installation) : Prop :=
  state'.1 = state.1 ∧ ∃ log, state'.2 = { state.2 with log }

theorem updateFile_log (edits : List IniEdit) (file : List String)
    {state state' : RunResult × World Installation} (same : AsideFromLog state state') :
    AsideFromLog (updateFile edits state file) (updateFile edits state' file) := by
  obtain ⟨result, world⟩ := state
  obtain ⟨result', world'⟩ := state'
  obtain ⟨sameResult, log, sameWorld⟩ := same
  dsimp only at sameResult sameWorld
  subst sameResult sameWorld
  unfold updateFile
  dsimp only
  split
  · exact ⟨rfl, _, rfl⟩
  · exact ⟨rfl, _, rfl⟩

theorem updateFiles_log (edits : List IniEdit) (files : List (List String))
    {state state' : RunResult × World Installation} (same : AsideFromLog state state') :
    AsideFromLog (files.foldl (updateFile edits) state)
      (files.foldl (updateFile edits) state') := by
  induction files generalizing state state' with
  | nil => exact same
  | cons file files ih => exact ih (updateFile_log edits file same)

theorem settleEdits_ignoresLog : settleEdits.IgnoresLog := by
  intro result w log
  unfold Finisher.effect settleEdits
  dsimp only
  by_cases noEdits : w.host.pendingEdits.isEmpty = true
  · rw [if_pos noEdits, if_pos noEdits]
    exact ⟨log, rfl⟩
  · rw [if_neg noEdits, if_neg noEdits]
    cases result with
    | none => exact ⟨log, rfl⟩
    | some r =>
      dsimp only
      by_cases succeeded : r.status = .success
      · rw [if_pos succeeded, if_pos succeeded]
        have start : AsideFromLog (r, w) (r, { w with log }) := ⟨rfl, log, rfl⟩
        obtain ⟨sameResult, log', sameWorld⟩ := updateFiles_log w.host.pendingEdits
          (editedFiles w.host.pendingEdits) start
        rw [sameResult, sameWorld]
        exact ⟨log', rfl⟩
      · rw [if_neg succeeded, if_neg succeeded]
        exact ⟨_, rfl⟩

end Installation

end InstallScript
