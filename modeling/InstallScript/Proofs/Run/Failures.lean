import InstallScript.Proofs.Run.Memory
import InstallScript.Proofs.Run.Upkeep

/-!
Failures of host functions. One that is fatal is the last call of the run, which ends with it; after
one that is not, the run goes on as if the function had left the warning and returned the fallback
(`failures_classified`).
-/

namespace InstallScript

/-- A call of a host function with what has come of it. -/
structure Invocation where
  function : FunctionSpec
  arguments : Arguments
  outcome : Outcome

namespace Invocation

/-- A call as a run keeps track of it. -/
def call (i : Invocation) : String × Arguments := (i.function.name, i.arguments)

/-- The call has failed with a message, and its function declares that fatal. -/
def FatallyFailed (i : Invocation) (message : String) : Prop :=
  i.function.failure = .fatal ∧ i.outcome = .failure message

instance {message : String} : (o : Outcome) → Decidable (o = .failure message)
  | .failure other =>
    decidable_of_iff (other = message) ⟨congrArg Outcome.failure, Outcome.failure.inj⟩
  | .value _ => isFalse nofun
  | .question _ => isFalse nofun
  | .crash _ => isFalse nofun

instance (i : Invocation) (message : String) : Decidable (i.FatallyFailed message) :=
  inferInstanceAs (Decidable (_ ∧ _))

end Invocation

/-- A host that records its calls with what has come of them. -/
def Host.recording {η : Type} (host : Host η) : Host (η × List Invocation) :=
  host.remembering fun record f arguments outcome => record ++ [⟨f, arguments, outcome⟩]

section

variable {η : Type} {setting : Setting η} {scope : Call → Prop}
  {earlier : List (String × Arguments)}

/-- The record tells the calls since some earlier ones. -/
def World.Recorded (earlier : List (String × Arguments)) (w : World (η × List Invocation)) : Prop :=
  w.calls.toList = earlier ++ w.host.2.map Invocation.call

/-- The record tells the calls since some earlier ones, and none of them has failed fatally. -/
structure World.Sound (earlier : List (String × Arguments)) (w : World (η × List Invocation)) :
    Prop where
  recorded : w.Recorded earlier
  sound : ∀ i ∈ w.host.2, ∀ message, ¬ i.FatallyFailed message

/-- A call of a script that may have been an invocation. -/
structure Call.Makes (catalog : Catalog) (c : Call) (i : Invocation) : Prop where
  found : catalog.get? c.name = some i.function
  bound : ∃ args kwargs, c.MayHave args kwargs ∧ i.function.bind args kwargs = .ok i.arguments

/-- The last call has failed fatally, and none before it has. -/
structure World.EndsWith (catalog : Catalog) (scope : Call → Prop)
    (earlier : List (String × Arguments)) (w : World (η × List Invocation)) (i : Invocation)
    (message : String) (c : Call) : Prop where
  recorded : w.Recorded earlier
  last : ∃ record, w.host.2 = record ++ [i] ∧ ∀ i ∈ record, ∀ message, ¬ i.FatallyFailed message
  failed : i.FatallyFailed message
  inScope : scope c
  makes : c.Makes catalog i

/-- The contract of a run with a record of its calls: no call but the last one has failed fatally,
and the run ends then. -/
def failureContract (η : Type) (catalog : Catalog) (scope : Call → Prop)
    (earlier : List (String × Arguments)) : Contract (World (η × List Invocation)) where
  waits _ w := w.Sound earlier
  resumes w _ t := t.calls = w.calls ∧ t.host = w.host
  exits why w := w.Sound earlier ∨ ∃ i message c, w.EndsWith catalog scope earlier i message c ∧
    why = .failed ⟨.fatalFailure i.function.name message, some c.span, none⟩

theorem World.Recorded.of_eq {w v : World (η × List Invocation)} (recorded : w.Recorded earlier)
    (calls : v.calls = w.calls) (memory : v.host.2 = w.host.2) : v.Recorded earlier := by
  rwa [World.Recorded, calls, memory]

theorem World.Sound.of_eq {w v : World (η × List Invocation)} (sound : w.Sound earlier)
    (calls : v.calls = w.calls) (memory : v.host.2 = w.host.2) : v.Sound earlier := by
  refine ⟨sound.recorded.of_eq calls memory, ?_⟩
  rw [memory]
  exact sound.sound

theorem World.EndsWith.of_eq {catalog : Catalog} {w v : World (η × List Invocation)}
    {i : Invocation} {message : String} {c : Call}
    (ends : w.EndsWith catalog scope earlier i message c)
    (calls : v.calls = w.calls) (memory : v.host.2 = w.host.2) :
    v.EndsWith catalog scope earlier i message c := by
  obtain ⟨record, last, sound⟩ := ends.last
  exact ⟨ends.recorded.of_eq calls memory, ⟨record, memory.trans last, sound⟩, ends.failed,
    ends.inScope, ends.makes⟩

/-- Nothing comes after an invocation that has failed fatally. -/
theorem World.EndsWith.is_last {catalog : Catalog} {w : World (η × List Invocation)}
    {last i : Invocation} {message told : String} {c : Call}
    (ends : w.EndsWith catalog scope earlier last told c) {before after : List Invocation}
    (split : w.host.2 = before ++ i :: after) (failed : i.FatallyFailed message) :
    after = [] ∧ i = last := by
  obtain ⟨record, eq, sound⟩ := ends.last
  rw [eq] at split
  rcases List.eq_nil_or_concat after with rfl | ⟨rest, z, rfl⟩
  · exact ⟨rfl, (List.singleton_inj.1 (List.append_inj_right' split rfl)).symm⟩
  · rw [List.concat_eq_append, ← List.cons_append, ← List.append_assoc] at split
    have same := List.append_inj_left' split rfl
    have member : i ∈ record := same ▸ List.mem_append_right _ List.mem_cons_self
    exact absurd failed (sound i member message)

namespace Run

variable {catalog : Catalog}

theorem failure_housekeeping :
    Housekeeping (failureContract η catalog scope earlier) (·.Sound earlier) where
  scopes _ sound := sound.of_eq rfl rfl
  popped exits := exits.imp (·.of_eq rfl rfl) fun ⟨i, message, c, ends, told⟩ =>
    ⟨i, message, c, ends.of_eq rfl rfl, told⟩
  ends _ sound := .inl sound

/-- What a call that is recorded returns. -/
theorem recorded_returns {w : World (η × List Invocation)} {c : Call} {f : FunctionSpec}
    {arguments : Arguments} {outcome : Outcome} {record : List Invocation}
    (sound : ∀ i ∈ record, ∀ message, ¬ i.FatallyFailed message) (recorded : w.Recorded earlier)
    (last : w.host.2 = record ++ [⟨f, arguments, outcome⟩]) (inScope : scope c)
    (makes : c.Makes catalog ⟨f, arguments, outcome⟩) :
    Returns (failureContract η catalog scope earlier) (·.Sound earlier) f c.span w outcome := by
  have extended (harmless : ∀ message,
      ¬ Invocation.FatallyFailed ⟨f, arguments, outcome⟩ message) : w.Sound earlier := by
    refine ⟨recorded, ?_⟩
    rw [last]
    exact List.forall_mem_append.2 ⟨sound, List.forall_mem_singleton.2 harmless⟩
  cases outcome with
  | value data => exact extended fun _ failed => nomatch failed.2
  | failure message =>
    refine handleFailure_upholds (fun v calls host fatal => .inr ?_) fun v calls host mode => ?_
    · have memory := congrArg Prod.snd host
      have ends : w.EndsWith catalog scope earlier _ message c :=
        ⟨recorded, ⟨record, last, sound⟩, ⟨fatal, rfl⟩, inScope, makes⟩
      exact ⟨_, message, c, ends.of_eq calls memory, rfl⟩
    · refine (extended fun _ failed => ?_).of_eq calls (congrArg Prod.snd host)
      cases mode.symm.trans failed.1
  | crash d => exact .inl (extended fun _ failed => nomatch failed.2)
  | question p =>
    have waits := extended fun _ failed => nomatch failed.2
    refine ⟨waits, fun r t resumes => ?_⟩
    have sound' := waits.of_eq resumes.1 (congrArg Prod.snd resumes.2)
    exact ⟨sound', fun _ _ => .inl sound'⟩

theorem failure_upkeep : Upkeep (setting.withHost setting.host.recording)
    (failureContract η setting.catalog scope earlier) (·.Sound earlier) scope where
  toHousekeeping := failure_housekeeping
  overflow _ sound := .inl sound
  unknown _ _ sound := .inl sound
  call := by
    intro c f args kwargs inScope found may
    unfold callWith
    split
    · rename_i arguments bound
      refine failure_housekeeping.invoke_upholds fun w sound => ?_
      have recorded : (w.call setting.host.recording f arguments c.span).2.Recorded earlier := by
        show (w.calls.push (f.name, arguments)).toList =
          earlier ++ (w.host.2 ++ [(⟨f, arguments, _⟩ : Invocation)]).map Invocation.call
        rw [Array.toList_push, sound.recorded, List.map_append, List.append_assoc]
        rfl
      exact recorded_returns sound.sound recorded rfl inScope ⟨found, args, kwargs, may, bound⟩
    · exact Action.Meets.leave fun w sound => .inl sound

end Run

theorem failure_lasts {catalog : Catalog} :
    (failureContract η catalog scope earlier).Lasts (·.Sound earlier) where
  cancelled _ sound := sound.of_eq rfl rfl
  waiting _ sound := sound.of_eq rfl rfl
  resumes _ resumes := resumes
  dropped sound _ := .inl sound

/-- The result of a run that ends because an invocation has failed fatally. -/
structure RunResult.TellsOf (result : RunResult) (i : Invocation) (message : String) (c : Call) :
    Prop where
  status : result.status = .failed
  error : ∃ d, result.error = some d ∧ d.code = "E501" ∧
    d.message = s!"{i.function.name}(): {message}" ∧ d.span = some c.span

namespace Session

variable {catalog : Catalog} {finisher : Finisher η}

theorem Over.tells {result : RunResult} {world : World (η × List Invocation)}
    (keeps : finisher.KeepsRun) (status : finisher.KeepsStatus)
    (ended : Over (failureContract η catalog scope earlier) finisher.withMemory result world) :
    world.Sound earlier ∨
      ∃ i message c, world.EndsWith catalog scope earlier i message c ∧
        result.TellsOf i message c := by
  have keeps' := Finisher.withMemory_keepsRun (γ := List Invocation) keeps
  obtain @⟨why, v, noted, before, cancelled, exits, results, notes, rfl, rfl⟩ := ended
  have calls : _ = v.calls := (keeps'.effect_calls (some before) noted).trans (notes ▸ rfl)
  have memory : _ = v.host.2 :=
    (finisher.withMemory_memory (some before) noted).trans (notes ▸ rfl)
  rcases exits with sound | ⟨i, message, c, ends, rfl⟩
  · exact .inl (sound.of_eq calls memory)
  · refine .inr ⟨i, message, c, ends.of_eq calls memory, ?_, ?_⟩
    · cases results
      rw [Finisher.withMemory_effect]
      exact status _ _
    · cases results
      rw [keeps'.effect_error]
      exact ⟨_, rfl, rfl, rfl, rfl⟩

/-- What the record of a session tells of fatal failures. -/
theorem Upholds.tells {s : Session (η × List Invocation)} (keeps : finisher.KeepsRun)
    (status : finisher.KeepsStatus) (same : s.finisher = finisher.withMemory)
    (upholds : s.Upholds (failureContract η catalog scope earlier) (·.Sound earlier)) :
    s.world.Sound earlier ∨
      ∃ i message c result, s.world.EndsWith catalog scope earlier i message c ∧
        s.phase = .finished result ∧ result.TellsOf i message c := by
  cases phase : s.phase with
  | fresh program => exact .inl (upholds.fresh phase).1
  | waiting p next => exact .inl (upholds.waiting phase).1
  | finished result =>
    have ended := upholds.finished phase
    rw [same] at ended
    exact (ended.tells keeps status).imp_right fun ⟨i, message, c, ends, tells⟩ =>
      ⟨i, message, c, result, ends, rfl, tells⟩
  | broken last =>
    have keeps' := Finisher.withMemory_keepsRun (γ := List Invocation) keeps
    obtain ⟨d, v, sound | ⟨_, _, _, _, other⟩, later⟩ := upholds.broken phase
    · rw [same] at later
      have calls := later.preserves (·.calls) (fun _ _ => rfl) (keeps'.effect_calls none)
      have memory := later.preserves (·.host.2) (fun _ _ => rfl) (finisher.withMemory_memory none)
      exact .inl (sound.of_eq calls memory)
    · cases other

end Session

end

/-! ## Whole histories -/

section

variable {η : Type} (setting : Setting η) (script : Block) (world : World η) (finisher : Finisher η)

/-- A session whose host records its calls. -/
def Session.ofRecorded : Session (η × List Invocation) :=
  ofScript (setting.withHost setting.host.recording) script (world.withMemory [])
    finisher.withMemory

theorem Session.recorded_upholds (moves : List Move) :
    (moves.foldl Session.move (ofRecorded setting script world finisher)).Upholds
      (failureContract η setting.catalog (fun c => Node.expr (.call c) ∈ script.walk)
        world.calls.toList) (·.Sound world.calls.toList) := by
  obtain ⟨span, statements⟩ := script
  have within : Run.Within (fun c => Node.expr (.call c) ∈ (Block.mk span statements).walk)
      (walkStmts statements) := fun c member => List.mem_cons_of_mem _ member
  have before : (world.withMemory ([] : List Invocation)).Sound world.calls.toList :=
    ⟨(List.append_nil _).symm, List.forall_mem_nil _⟩
  refine moves_uphold failure_lasts (fun _ _ _ _ _ => ⟨rfl, rfl⟩) ⟨before, fun w sound => ?_⟩
  exact (Run.executeAll_upholds Run.failure_upkeep statements within w sound).imp
    fun _ _ both => .inl both.2

/-- The record tells the calls of a history, and an invocation in it that has failed fatally is the
last one and ends the run. -/
theorem Session.fatal_is_last (keeps : finisher.KeepsRun) (status : finisher.KeepsStatus)
    (moves : List Move) :
    let recorded := moves.foldl Session.move (ofRecorded setting script world finisher)
    recorded.world.calls.toList =
        world.calls.toList ++ recorded.world.host.2.map Invocation.call ∧
      ∀ before i after message, recorded.world.host.2 = before ++ i :: after →
        i.FatallyFailed message → after = [] ∧ ∃ result c, recorded.phase = .finished result ∧
          result.TellsOf i message c ∧ Node.expr (.call c) ∈ script.walk ∧
            c.Makes setting.catalog i := by
  intro recorded
  have upholds := recorded_upholds setting script world finisher moves
  rcases upholds.tells keeps status (moves_finisher _ _) with
    sound | ⟨last, told, c, result, ends, ended, tells⟩
  · refine ⟨sound.recorded, fun before i after message split failed => ?_⟩
    have member : i ∈ recorded.world.host.2 := split ▸ List.mem_append_right _ List.mem_cons_self
    exact absurd failed (sound.sound i member message)
  · refine ⟨ends.recorded, fun before i after message split failed => ?_⟩
    obtain ⟨isLast, rfl⟩ := ends.is_last split failed
    cases failed.2.symm.trans ends.failed.2
    exact ⟨isLast, result, c, ended, tells, ends.inScope, ends.makes⟩

/-- Over a whole history, whatever the host, the user and the settings do: a call whose function
declares its failure fatal and that fails is the last call, and the run is over with an error about
that call; and excusing failures that are not fatal, in any choice of calls, makes no difference to
the calls, the variables, the directory and the result. -/
theorem failures_classified (keeps : finisher.KeepsRun) (status : finisher.KeepsStatus)
    (ignores : finisher.IgnoresLog) (moves : List Session.Move) :
    let session := moves.foldl Session.move (Session.ofScript setting script world finisher)
    let recorded := moves.foldl Session.move (Session.ofRecorded setting script world finisher)
    (session.Same recorded ∧
      recorded.world.calls.toList =
        world.calls.toList ++ recorded.world.host.2.map Invocation.call ∧
      ∀ before i after message, recorded.world.host.2 = before ++ i :: after →
        i.FatallyFailed message → after = [] ∧ ∃ result c, recorded.phase = .finished result ∧
          result.TellsOf i message c ∧ Node.expr (.call c) ∈ script.walk ∧
            c.Makes setting.catalog i) ∧
    ∀ chosen, session.Same (moves.foldl Session.move
      (Session.ofScript (setting.withHost (setting.host.excusing chosen)) script
        (world.withMemory world.calls.size) finisher.withMemory)) := by
  intro session recorded
  refine ⟨⟨Session.remembering_same setting script world keeps _ [] moves,
    Session.fatal_is_last setting script world finisher keeps status moves⟩, fun chosen => ?_⟩
  exact (Session.Plays.of_none _ moves).same (setting.host.excusing_follows chosen)
    world.like_counting (Finisher.alike_withMemory keeps fun _ => ignores) keeps
    (Finisher.withMemory_keepsRun keeps)

end

/-- A host with a function that may fail and one that must not, both of which fail. -/
def stumbler : Setting Unit where
  catalog := { functions := [{ name := "Try", failure := .recoverable }, { name := "Break" }] }
  host _ _ directory state := .ofFailure state directory "no"

/-- A script that calls both functions. -/
def stumbling : Block :=
  .mk default [.assign default .bind "x" (.call (.mk default "Try" [] [])),
    .call (.mk default "Break" [] [])]

/-- The session of the script, with a record of the calls. -/
def stumblingRecorded : Session (Unit × List Invocation) :=
  [.start].foldl Session.move
    (Session.ofRecorded stumbler stumbling ⟨{}, (), none, #[], #[]⟩ Finisher.idle)

theorem stumbling_classified :
    (∃ i j result c, stumblingRecorded.world.host.2 = [i, j] ∧ j.FatallyFailed "no" ∧
      stumblingRecorded.phase = .finished result ∧ result.TellsOf j "no" c) ∧
    ([.start].foldl Session.move (Session.ofScript stumbler stumbling
        ⟨{}, (), none, #[], #[]⟩)).Same
      ([.start].foldl Session.move (Session.ofScript
        (stumbler.withHost (stumbler.host.excusing fun _ => true)) stumbling
        (World.withMemory ⟨{}, (), none, #[], #[]⟩ 0) Finisher.idle.withMemory)) := by
  have shape : stumblingRecorded.world.host.2.map (fun i => decide (i.FatallyFailed "no")) =
      [false, true] := by decide +kernel
  obtain ⟨⟨-, -, fatal⟩, excused⟩ := failures_classified stumbler stumbling
    ⟨{}, (), none, #[], #[]⟩ Finisher.idle Finisher.idle_keepsRun (fun _ _ => rfl)
    (fun _ _ log => ⟨log, rfl⟩) [.start]
  obtain ⟨i, rest, record, -, shape⟩ := List.map_eq_cons_iff.1 shape
  obtain ⟨j, rest, rfl, failed, shape⟩ := List.map_eq_cons_iff.1 shape
  cases List.map_eq_nil_iff.1 shape
  have fatally : j.FatallyFailed "no" := of_decide_eq_true failed
  obtain ⟨-, result, c, ended, tells, -⟩ := fatal [i] j [] "no" record fatally
  exact ⟨⟨i, j, result, c, record, fatally, ended, tells⟩, excused fun _ => true⟩

end InstallScript
