import InstallScript.Dialect.Bundled
import InstallScript.Proofs.Run.Memory
import InstallScript.Proofs.Run.Finishers

/-!
Changes of settings files are made all or none. The queue of changes is touched by one handler only,
and read by none, so a run goes the same way as one that queues nothing, up to the queue. What is
queued is made when the run has succeeded, and dropped otherwise (`edits_all_or_nothing`).
-/

namespace InstallScript

namespace Installation

/-! ## Handlers and the queue -/

/-- The installation with other queued changes. -/
def withQueue (i : Installation) (edits : List IniEdit) : Installation :=
  { i with pendingEdits := edits }

/-- Checks what a change of a settings file is about, and queues nothing. -/
def checkIni : Handler := fun arguments directory i =>
  match i.targetParts (arguments.string "file") with
  | .error outcome => i.respond directory outcome
  | .ok _ => i.respond directory nothing

/-- The second handler leaves the queue as it is, and does otherwise what the first one does,
whatever is queued. -/
def Unqueued (handle handle' : Handler) : Prop :=
  ∀ arguments directory (i : Installation) edits,
    handle' arguments directory (i.withQueue edits) =
      (handle arguments directory i).mapHost (·.withQueue edits)

section

variable (i : Installation) (edits : List IniEdit) (directory : List String)

@[simp] theorem files_withQueue : (i.withQueue edits).files = i.files := rfl

@[simp] theorem target_withQueue : (i.withQueue edits).target = i.target := rfl

@[simp] theorem respond_withQueue (outcome : Outcome) :
    (i.withQueue edits).respond directory outcome =
      (i.respond directory outcome).mapHost (·.withQueue edits) := rfl

@[simp] theorem sourcePath_withQueue (path : String) :
    (i.withQueue edits).sourcePath directory path = i.sourcePath directory path := rfl

@[simp] theorem targetParts_withQueue (path : String) :
    (i.withQueue edits).targetParts path = i.targetParts path := rfl

@[simp] theorem look_withQueue (p : Path) : (i.withQueue edits).look p = i.look p := rfl

@[simp] theorem copyPlan_withQueue (source destination : String) (overwrite : Bool) :
    (i.withQueue edits).copyPlan directory source destination overwrite =
      i.copyPlan directory source destination overwrite := rfl

end

theorem editIni_unqueued : Unqueued editIni checkIni := by
  intro arguments directory i edits
  unfold editIni checkIni
  rw [targetParts_withQueue]
  cases i.targetParts (arguments.string "file") <;> rfl

theorem fileExists_unqueued : Unqueued fileExists fileExists := fun _ _ _ _ => rfl

theorem setDirectory_unqueued : Unqueued setDirectory setDirectory := by
  intro arguments directory i edits
  unfold setDirectory
  simp only [sourcePath_withQueue, look_withQueue, respond_withQueue]
  split <;> rfl

theorem compareVersion_unqueued : Unqueued compareVersion compareVersion := by
  intro arguments directory i edits
  unfold compareVersion
  cases compareVersions (arguments.string "left") (arguments.string "right") <;> rfl

theorem copy_unqueued : Unqueued copy copy := by
  intro arguments directory i edits
  unfold copy
  simp only [copyPlan_withQueue, files_withQueue, target_withQueue, respond_withQueue]
  split
  · rfl
  · split <;> rfl

theorem createDirectory_unqueued : Unqueued createDirectory createDirectory := by
  intro arguments directory i edits
  unfold createDirectory
  simp only [targetParts_withQueue, files_withQueue, target_withQueue, respond_withQueue]
  split
  · rfl
  · split <;> rfl

theorem deleteFile_unqueued : Unqueued deleteFile deleteFile := by
  intro arguments directory i edits
  unfold deleteFile
  simp only [targetParts_withQueue, look_withQueue, files_withQueue, target_withQueue,
    respond_withQueue]
  split <;> rfl

theorem choose_unqueued : Unqueued choose choose := by
  intro arguments directory i edits
  unfold choose
  dsimp only
  split <;> rfl

theorem handler?_map (handlers : List (String × Handler)) (replace : String × Handler → Handler)
    (name : String) : handler? (handlers.map fun entry => (entry.1, replace entry)) name =
      (handlers.find? fun entry => Text.fold entry.1 = Text.fold name).map replace := by
  unfold handler?
  rw [List.find?_map, Option.map_map]
  rfl

/-- Runs of which one queues nothing. Their logs differ when changes are dropped. -/
def besidesQueue : Likeness Installation Installation where
  hosts _ i i' := i' = i.withQueue []
  logged := False

/-- A host goes the same way as one whose handlers queue nothing. -/
theorem host_unqueued (handlers : List (String × Handler)) (replace : String × Handler → Handler)
    (unqueued : ∀ entry ∈ handlers, Unqueued entry.2 (replace entry)) :
    (host handlers).Follows besidesQueue (fun _ => none)
      (host (handlers.map fun entry => (entry.1, replace entry))) := by
  rintro f arguments directory calls i _ rfl
  unfold host
  rw [handler?_map]
  unfold handler?
  have like (r : Response Installation) : r.Like besidesQueue (calls + 1)
      (r.mapHost (·.withQueue [])) [] :=
    ⟨rfl, rfl, (List.append_nil _).symm, rfl, False.elim⟩
  cases found : handlers.find? fun entry => Text.fold entry.1 = Text.fold f.name with
  | none => exact .same rfl (fun _ _ => rfl) (like (i.respond directory nothing))
  | some entry =>
    have same := unqueued entry (List.mem_of_find?_eq_some found) arguments directory i []
    show Response.Follows besidesQueue (fun _ => none) f (calls + 1)
      (entry.2 arguments directory i) (replace entry arguments directory (i.withQueue []))
    rw [same]
    exact .same rfl (fun _ _ => rfl) (like _)

/-! ## The finisher -/

/-- When the run is over nothing is queued any more. -/
theorem settleEdits_empties (result : RunResult) (w : World Installation) :
    (settleEdits.effect (some result) w).2.host.pendingEdits = [] := by
  rcases settleEdits_cases (some result) w with ⟨none' | other, eq⟩ | ⟨r, -, -, eq⟩ | ⟨r, _, -, -, eq⟩
  · rw [eq]
    exact none'
  · cases other
  · rw [eq]
    rfl
  · rw [eq]
    rfl

/-- Without changes that are queued nothing is done. -/
theorem settleEdits_of_empty {w : World Installation} (empty : w.host.pendingEdits = [])
    (result : Option RunResult) : settleEdits.effect result w = (result, w) := by
  have idle : settleEdits result w = .ok (result, w) := by
    unfold settleEdits
    dsimp only
    rw [empty]
    rfl
  rw [Finisher.effect_of_ok idle, Option.or_self]

/-- Unless the run has succeeded, only the queue and the log change. -/
theorem settleEdits_sparing_alike : settleEdits.sparing.Alike besidesQueue settleEdits := by
  intro result w w' like
  have empty : w'.host.pendingEdits = [] := congrArg pendingEdits like.host
  rw [settleEdits_of_empty empty]
  by_cases succeeds : result.map (·.status) = some .success
  · obtain ⟨r, rfl, success⟩ := Option.map_eq_some_iff.1 succeeds
    rw [Finisher.sparing_of_success _ success]
    exact ⟨rfl, like⟩
  · rw [Finisher.sparing_of_other _ succeeds]
    rcases settleEdits_cases result w with ⟨-, eq⟩ | ⟨r, rfl, success, -⟩ | ⟨r, message, -, -, eq⟩
    · rw [eq]
      exact ⟨rfl, like⟩
    · exact absurd (congrArg some success) succeeds
    · rw [eq]
      exact ⟨rfl, ⟨like.context, like.cancelled, like.calls, like.host, False.elim⟩⟩

end Installation

namespace Dialect

open Installation

/-- The handler that is left when no changes of settings files are queued. -/
def unqueuedHandler (entry : String × Handler) : Handler :=
  if entry.1 = "EditIni" then checkIni else entry.2

/-- The dialect that is the same but queues no changes of settings files. -/
def unqueued (d : Dialect) : Dialect :=
  { d with
    handlers := d.handlers.map fun entry => (entry.1, unqueuedHandler entry) }

theorem stateOfDecay_unqueued :
    stateOfDecay.host.Follows besidesQueue (fun _ => none) stateOfDecay.unqueued.host := by
  refine host_unqueued stateOfDecay.handlers unqueuedHandler ?_
  simp only [stateOfDecay, List.forall_mem_cons, unqueuedHandler, reduceIte, String.reduceEq]
  exact ⟨fileExists_unqueued, copy_unqueued, createDirectory_unqueued, deleteFile_unqueued,
    setDirectory_unqueued, editIni_unqueued, fun _ _ _ _ => rfl, choose_unqueued,
    fun _ _ _ _ => rfl, compareVersion_unqueued, fun _ _ _ _ => rfl, fun _ _ _ _ => rfl,
    List.forall_mem_nil _⟩

end Dialect

/-! ## Sessions -/

open Installation Dialect

section

variable (config : Config) (script : Block) (world : World Installation)
  (moves : List Session.Move)

/-- The session of State of Decay, with a finisher that does nothing when the run has succeeded. -/
def sparingSession : Session Installation :=
  Session.ofScript (stateOfDecay.setting config) script
    (world.note .debug .dialects s!"starting {stateOfDecay.name} run") settleEdits.sparing

/-- The session of State of Decay that queues nothing. -/
def unqueuedSession : Session Installation :=
  stateOfDecay.unqueued.session config script (dropEdits world)

/-- As long as nothing is done when a run has succeeded, a session keeps up with the session that
queues nothing. -/
theorem sparing_abreast :
    (moves.foldl Session.move (sparingSession config script world)).Abreast besidesQueue
      (fun _ => none) (moves.foldl Session.move (unqueuedSession config script world)) := by
  refine (Session.Plays.of_none _ moves).abreast ?_ settleEdits_sparing_alike
  have like : World.Like besidesQueue (sparingSession config script world).world
      (unqueuedSession config script world).world := ⟨rfl, rfl, rfl, rfl, False.elim⟩
  have follows : Action.Follows besidesQueue (fun _ => none) (fun _ => True)
      (Run.executeAll (stateOfDecay.setting config) script.statements)
      (Run.executeAll (stateOfDecay.unqueued.setting config) script.statements) :=
    Run.executeAll_follows stateOfDecay_unqueued script.statements
  exact .fresh rfl rfl like follows

theorem sparing_same :
    (moves.foldl Session.move (sparingSession config script world)).Same
        (moves.foldl Session.move (unqueuedSession config script world)) ∧
      (moves.foldl Session.move (unqueuedSession config script world)).world.host =
        (moves.foldl Session.move (sparingSession config script world)).world.host.withQueue [] := by
  have abreast := sparing_abreast config script world moves
  have unprepared := (Session.Plays.of_none (sparingSession config script world) moves).unprepared
  have finisher : (moves.foldl Session.move (sparingSession config script world)).finisher =
      settleEdits.sparing := Session.moves_finisher _ moves
  have finisher' : (moves.foldl Session.move (unqueuedSession config script world)).finisher =
      settleEdits := Session.moves_finisher _ moves
  constructor
  · refine abreast.same unprepared fun _ => abreast.calls unprepared ?_ ?_
    · rw [finisher]
      exact settleEdits_keepsRun.sparing
    · rw [finisher']
      exact settleEdits_keepsRun
  · refine abreast.relates unprepared World.host World.host (fun i i' => i' = i.withQueue [])
      (fun _ _ like => like.host) (fun _ _ => rfl) (fun _ _ => rfl) ?_ ?_
    · intro w
      rw [finisher, Finisher.sparing_of_other]
      · exact congrArg World.host (settleEdits_needsResult w)
      · simp
    · intro w
      rw [finisher']
      exact congrArg World.host (settleEdits_needsResult w)

/-- Changes of settings files are made all or none. Until a run of State of Decay has succeeded,
while it waits, and when it has failed, was cancelled or has broken off, it shows the same as the
run that queues nothing, and the files are the same; and the two end alike. Whenever it has a
result, nothing is queued any more. -/
theorem edits_all_or_nothing :
    let session := moves.foldl Session.move (stateOfDecay.session config script world)
    let unqueued := moves.foldl Session.move (unqueuedSession config script world)
    ((∀ result, session.phase = .finished result → result.status ≠ .success) →
        session.Same unqueued ∧ session.world.host.files = unqueued.world.host.files) ∧
      session.result?.map (·.status) = unqueued.result?.map (·.status) ∧
      ∀ result, session.phase = .finished result → session.world.host.pendingEdits = [] := by
  intro session unqueued
  let sparing := moves.foldl Session.move (sparingSession config script world)
  have spared : session.Spared sparing :=
    Session.moves_spared (stateOfDecay.session config script world) settleEdits_keepsStatus moves
  obtain ⟨same, host⟩ : sparing.Same unqueued ∧
      unqueued.world.host = sparing.world.host.withQueue [] :=
    sparing_same config script world moves
  refine ⟨fun other => ?_, ?_, fun result ended => ?_⟩
  · cases spared with
    | same eq =>
      rw [eq] at same host
      refine ⟨⟨same.calls, same.result, same.broken, same.context, same.pending⟩, ?_⟩
      rw [host]
      rfl
    | succeeded phase _ success => exact absurd success (other _ phase)
  · rw [← same.result]
    cases spared with
    | same eq =>
      rw [eq]
      rfl
    | succeeded phase phase' success success' =>
      rw [Session.result?_eq_some_iff.2 phase, Session.result?_eq_some_iff.2 phase']
      exact congrArg some (success.trans success'.symm)
  · obtain ⟨-, -, -, -, later⟩ := Session.over_of_finished _ _ _ _ moves ended
    have left : session.world.host.pendingEdits = _ :=
      congrArg (fun w : World Installation => w.host.pendingEdits) later
    exact left.trans (settleEdits_empties _ _)

end

end InstallScript
