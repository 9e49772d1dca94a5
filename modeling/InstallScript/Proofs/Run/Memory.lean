import InstallScript.Proofs.Run.Abreast

/-!
Hosts with a memory. A host that remembers something beside its own state, such as the number of
calls or what came of them, may change its responses accordingly. Otherwise it does what the host
without the memory does, and so does a finisher that leaves the memory alone. So a run that is asked
and answered comes to the same as a run whose host gives the answer itself (`answers_as_values`).
-/

namespace InstallScript

variable {η η' γ : Type}

/-- The same response about another state of the host. -/
def Response.mapHost (r : Response η) (change : η → η') : Response η' where
  outcome := r.outcome
  host := change r.host
  directory := r.directory
  warnings := r.warnings
  cancel := r.cancel
  log := r.log

/-- The same world with another state of the host. -/
def World.mapHost (w : World η) (change : η → η') : World η' where
  context := w.context
  host := change w.host
  cancelled := w.cancelled
  calls := w.calls
  log := w.log

/-- A host with a memory, which reacts to the calls and their responses. -/
def Host.withMemory (host : Host η)
    (react : γ → FunctionSpec → Arguments → Response η → Response η × γ) : Host (η × γ) :=
  fun f arguments directory state =>
    let reaction := react state.2 f arguments (host f arguments directory state.1)
    reaction.1.mapHost fun h => (h, reaction.2)

/-- The world of a run that is about to be remembered. -/
def World.withMemory (w : World η) (memory : γ) : World (η × γ) :=
  w.mapHost fun h => (h, memory)

/-- A finisher that leaves the memory alone. -/
def Finisher.withMemory (finisher : Finisher η) : Finisher (η × γ) := fun result w =>
  (finisher result (w.mapHost Prod.fst)).map fun out => (out.1, out.2.withMemory w.host.2)

theorem Finisher.withMemory_effect (finisher : Finisher η) (result : Option RunResult)
    (w : World (η × γ)) :
    (finisher.withMemory.effect result w : Option RunResult × World (η × γ)) =
      ((finisher.effect result (w.mapHost Prod.fst)).1,
        (finisher.effect result (w.mapHost Prod.fst)).2.withMemory w.host.2) := by
  cases acts : finisher result (w.mapHost Prod.fst) with
  | ok out =>
    have acts' : finisher.withMemory result w = .ok (out.1, out.2.withMemory w.host.2) := by
      rw [withMemory, acts]
      rfl
    rw [effect_of_ok acts, effect_of_ok acts']
  | error d =>
    have acts' : finisher.withMemory result w = .error d := by
      rw [withMemory, acts]
      rfl
    rw [effect_of_error acts, effect_of_error acts']
    rfl

/-- The memory stays as it is when the run is over. -/
theorem Finisher.withMemory_memory (finisher : Finisher η) (result : Option RunResult)
    (w : World (η × γ)) : (finisher.withMemory.effect result w).2.host.2 = w.host.2 := by
  rw [withMemory_effect]
  rfl

theorem Finisher.withMemory_keepsRun {finisher : Finisher η} (keeps : finisher.KeepsRun) :
    (finisher.withMemory : Finisher (η × γ)).KeepsRun := by
  constructor
  · intro result w acted w' acts
    cases inner : finisher (some result) (w.mapHost Prod.fst) with
    | ok out =>
      have kept := keeps.error inner
      rw [withMemory, inner] at acts
      cases acts
      exact kept
    | error d =>
      rw [withMemory, inner] at acts
      cases acts
  · intro result w acted w' acts
    cases inner : finisher result (w.mapHost Prod.fst) with
    | ok out =>
      have kept := keeps.calls inner
      rw [withMemory, inner] at acts
      cases acts
      exact kept
    | error d =>
      rw [withMemory, inner] at acts
      cases acts

theorem Finisher.Modest.withMemory {finisher : Finisher η} (modest : finisher.Modest) :
    (finisher.withMemory : Finisher (η × γ)).Modest := by
  constructor
  · intro result w
    rw [withMemory_effect]
    exact modest.result result _
  · intro result w
    rw [withMemory_effect]
    exact modest.calls result _
  · intro result w
    rw [withMemory_effect]
    exact modest.scopes result _
  · intro result w
    rw [withMemory_effect]
    exact modest.cancelled result _

/-! ## Memories that change nothing -/

/-- A host that only remembers. -/
def Host.remembering (host : Host η) (remember : γ → FunctionSpec → Arguments → Outcome → γ) :
    Host (η × γ) :=
  host.withMemory fun memory f arguments r => (r, remember memory f arguments r.outcome)

/-- Runs one of whose hosts only remembers. -/
def remembered (η γ : Type) : Likeness η (η × γ) where
  hosts _ h h' := h'.1 = h
  logged := True

theorem World.Like.remembered_iff {w : World η} {w' : World (η × γ)} :
    w.Like (remembered η γ) w' ↔ w'.mapHost Prod.fst = w := by
  constructor
  · rintro ⟨context, cancelled, calls, host, log⟩
    obtain ⟨_, _, _, _, _⟩ := w
    cases context
    cases cancelled
    cases calls
    cases host
    cases log trivial
    rfl
  · rintro rfl
    exact ⟨rfl, rfl, rfl, rfl, fun _ => rfl⟩

theorem World.like_remembered (w : World η) (memory : γ) :
    w.Like (remembered η γ) (w.withMemory memory) :=
  World.Like.remembered_iff.2 rfl

theorem Host.remembering_follows (host : Host η)
    (remember : γ → FunctionSpec → Arguments → Outcome → γ) :
    host.Follows (remembered η γ) (fun _ => none) (host.remembering remember) := by
  intro f arguments directory calls h h' same
  cases same
  exact .same rfl (fun _ _ => rfl) ⟨rfl, rfl, (List.append_nil _).symm, rfl, fun _ => rfl⟩

theorem Finisher.alike_remembered (finisher : Finisher η) :
    finisher.Alike (remembered η γ) finisher.withMemory := by
  intro result w w' like
  cases World.Like.remembered_iff.1 like
  rw [withMemory_effect]
  exact ⟨rfl, World.Like.remembered_iff.2 rfl⟩

/-- A run whose host also remembers shows the same. -/
theorem Session.remembering_same (setting : Setting η) (script : Block) (world : World η)
    {finisher : Finisher η} (keeps : finisher.KeepsRun)
    (remember : γ → FunctionSpec → Arguments → Outcome → γ) (memory : γ) (moves : List Move) :
    (moves.foldl Session.move (ofScript setting script world finisher)).Same
      (moves.foldl Session.move (ofScript (setting.withHost (setting.host.remembering remember))
        script (world.withMemory memory) finisher.withMemory)) :=
  (Plays.of_none _ moves).same (setting.host.remembering_follows remember)
    (world.like_remembered memory) finisher.alike_remembered keeps
    (Finisher.withMemory_keepsRun keeps)

/-! ## Counting calls -/

/-- Runs one of whose hosts counts its calls. -/
def counting (η : Type) (logged : Prop) : Likeness η (η × Nat) where
  hosts calls h h' := h' = (h, calls)
  logged := logged

theorem World.Like.counting_iff {logged : Prop} {w : World η} {w' : World (η × Nat)} :
    w.Like (counting η logged) w' ↔
      ∃ log, (logged → log = w.log) ∧ w' = { w.withMemory w.calls.size with log } := by
  constructor
  · rintro ⟨context, cancelled, calls, host, log⟩
    obtain ⟨_, _, _, _, _⟩ := w'
    cases context
    cases cancelled
    cases calls
    cases host
    exact ⟨_, fun logged => (log logged).symm, rfl⟩
  · rintro ⟨log, same, rfl⟩
    exact ⟨rfl, rfl, rfl, rfl, fun logged => (same logged).symm⟩

/-- Counting starts with the calls so far. -/
theorem World.like_counting {logged : Prop} (w : World η) :
    w.Like (counting η logged) (w.withMemory w.calls.size) :=
  World.Like.counting_iff.2 ⟨w.log, fun _ => rfl, rfl⟩

/-- A finisher that does not change the number of calls, nor heeds the log unless the logs are the
same, does the same beside the count. -/
theorem Finisher.alike_withMemory {finisher : Finisher η} {logged : Prop}
    (keeps : finisher.KeepsRun) (heeds : ¬ logged → finisher.IgnoresLog) :
    finisher.Alike (counting η logged) finisher.withMemory := by
  intro result w w' like
  obtain ⟨log, same, rfl⟩ := World.Like.counting_iff.1 like
  rw [withMemory_effect]
  show (finisher.effect result w).1 = (finisher.effect result { w with log }).1 ∧
    (finisher.effect result w).2.Like (counting η logged)
      ((finisher.effect result { w with log }).2.withMemory w.calls.size)
  have size : w.calls.size = (finisher.effect result w).2.calls.size := by
    rw [keeps.effect_calls]
  by_cases isLogged : logged
  · rw [same isLogged]
    refine ⟨rfl, World.Like.counting_iff.2 ⟨(finisher.effect result w).2.log, fun _ => rfl, ?_⟩⟩
    rw [size]
    rfl
  · obtain ⟨log', eq⟩ := heeds isLogged result w log
    rw [eq]
    refine ⟨rfl, World.Like.counting_iff.2 ⟨log', fun logs => absurd logs isLogged, ?_⟩⟩
    rw [size]
    rfl

/-! ## Hosts that give answers and excuse failures -/

/-- The host that gives prepared answers instead of asking. -/
def Host.answering (host : Host η) (answers : Nat → Option Datum) : Host (η × Nat) :=
  host.withMemory fun calls _ _ r =>
    match r.outcome, answers (calls + 1) with
    | .question _, some data => ({ r with outcome := .value data }, calls + 1)
    | _, _ => (r, calls + 1)

/-- The host that, in chosen calls, gives the fallback and leaves the warning instead of failing in
a way that does not end the run. -/
def Host.excusing (host : Host η) (chosen : Nat → Bool) : Host (η × Nat) :=
  host.withMemory fun calls f _ r =>
    match r.outcome, f.failure, chosen (calls + 1) with
    | .failure message, .recoverable, true =>
      ({ r with
        outcome := .value f.fallback.toDatum
        warnings := r.warnings ++ [f.remark message] }, calls + 1)
    | _, _, _ => (r, calls + 1)

/-- A host that only counts does the same to the run. -/
theorem Response.like_counting {logged : Prop} {calls : Nat} (r : Response η) :
    r.Like (counting η logged) calls (r.mapHost fun h => (h, calls)) [] :=
  ⟨rfl, rfl, (List.append_nil _).symm, rfl, fun _ => rfl⟩

theorem Host.answering_follows (host : Host η) (answers : Nat → Option Datum) :
    host.Follows (counting η True) answers (host.answering answers) := by
  intro f arguments directory calls h h' counted
  cases counted
  unfold answering withMemory
  dsimp only
  generalize host f arguments directory h = r
  split
  · rename_i p data asks prepared
    have like : r.Like (counting η True) (calls + 1) (r.mapHost fun h => (h, calls + 1)) [] :=
      r.like_counting
    exact .answered asks prepared rfl { like with host := rfl }
  · rename_i other
    refine .same rfl (fun p asks => ?_) r.like_counting
    cases prepared : answers (calls + 1) with
    | none => rfl
    | some data => exact absurd prepared (other p data asks)

theorem Host.excusing_follows (host : Host η) (chosen : Nat → Bool) :
    host.Follows (counting η False) (fun _ => none) (host.excusing chosen) := by
  intro f arguments directory calls h h' counted
  cases counted
  unfold excusing withMemory
  dsimp only
  generalize host f arguments directory h = r
  split
  · rename_i message fails recoverable _
    have like : r.Like (counting η False) (calls + 1) (r.mapHost fun h => (h, calls + 1)) [] :=
      r.like_counting
    exact .excused recoverable fails rfl id { like with warnings := rfl }
  · exact .same rfl (fun _ _ => rfl) r.like_counting

/-! ## Answers as values -/

/-- A history in which the questions of chosen calls are answered as prepared, with answers that
they accept and while the run is not cancelled, shows the same calls, variables, directory and
result as the history without these answers of a run whose host gives them itself. -/
theorem answers_as_values {η : Type} (setting : Setting η) (script : Block) (world : World η)
    (finisher : Finisher η) (keeps : finisher.KeepsRun) (answers : Nat → Option Datum)
    (moves moves' : List Session.Move)
    (plays : Session.Plays answers (Session.ofScript setting script world finisher) moves moves') :
    (moves.foldl Session.move (Session.ofScript setting script world finisher)).Same
      (moves'.foldl Session.move
        (Session.ofScript (setting.withHost (setting.host.answering answers)) script
          (world.withMemory world.calls.size) finisher.withMemory)) :=
  plays.same (setting.host.answering_follows answers) world.like_counting
    (Finisher.alike_withMemory keeps fun unlogged => absurd trivial unlogged) keeps
    (Finisher.withMemory_keepsRun keeps)

/-- A function that asks for a yes or a no. -/
def askFunction : FunctionSpec := { name := "Ask", returns := .bool, prompt := true }

/-- What the function asks. -/
def sureQuestion : Prompt := { function := "Ask", kind := .confirm, message := "sure" }

/-- A host that always asks. -/
def asker : Setting Unit where
  catalog := { functions := [askFunction] }
  host _ _ directory state := { outcome := .question sureQuestion, host := state, directory }

/-- A script that negates what the user says. -/
def negated : Block :=
  .mk default [.assign default .bind "x" (.unary default .not (.call (.mk default "Ask" [] [])))]

/-- A script that asks in a loop. -/
def askedInLoop : Block :=
  .mk default [.whileLoop default (.literal default (.bool true))
    (.mk default [.call (.mk default "Ask" [] [])])]

/-- Whether a run waits for the reply to a question. -/
def Session.waitsFor (s : Session η) (p : Prompt) : Bool :=
  match s.phase with
  | .waiting q _ => decide (q = p)
  | _ => false

theorem Session.waiting_of_waitsFor {s : Session η} {p : Prompt} (waits : s.waitsFor p = true) :
    ∃ next, s.phase = .waiting p next := by
  unfold waitsFor at waits
  split at waits
  · rename_i q next waiting
    cases of_decide_eq_true waits
    exact ⟨next, waiting⟩
  · cases waits

/-- The session of the first script. -/
def asking : Session Unit := Session.ofScript asker negated ⟨{}, (), none, #[], #[]⟩

/-- The first call is answered with a yes. -/
def yesAtFirst (call : Nat) : Option Datum := if call = 1 then some (.bool true) else none

theorem asking_same : ([.start, .resume (.answer (.bool true))].foldl Session.move asking).Same
    ([.start].foldl Session.move (Session.ofScript
      (asker.withHost (asker.host.answering yesAtFirst)) negated
      (World.withMemory ⟨{}, (), none, #[], #[]⟩ 0) Finisher.idle.withMemory)) := by
  have asked : (asking.move .start).waitsFor sureQuestion = true := by decide +kernel
  have once : (asking.move .start).world.calls.size = 1 := by decide +kernel
  have prepared : yesAtFirst (asking.move .start).world.calls.size = some (.bool true) := by
    rw [once]
    rfl
  have open' : (asking.move .start).world.cancelled = none := by decide +kernel
  have ended : ((asking.move .start).move (.resume (.answer (.bool true)))).isFinished = true := by
    decide +kernel
  obtain ⟨next, waiting⟩ := Session.waiting_of_waitsFor asked
  exact answers_as_values asker negated ⟨{}, (), none, #[], #[]⟩ Finisher.idle
    Finisher.idle_keepsRun yesAtFirst [.start, .resume (.answer (.bool true))] [.start]
    (.move rfl (.answer waiting prepared open' rfl
      (.nil (Session.prepared?_of_isFinished ended))))

end InstallScript
