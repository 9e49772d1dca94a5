import InstallScript.Proofs.Run.Memory
import InstallScript.Proofs.Run.Upkeep

/-!
Invariants of hosts. What every function of a host keeps of the host's state, of the current
directory and of the calls so far, whatever it is called with, holds at every point of a history,
whatever the script and the replies are (`Session.moves_hold`). It holds at every call as the host
sees it, too: with the current directory and the state of the host at that time (`Visit`,
`Session.visits_hold`).
-/

namespace InstallScript

variable {η : Type}

/-- What may be said of the host, the current directory and the calls so far. -/
abbrev HostInvariant (η : Type) := η → List String → Array (String × Arguments) → Prop

/-- Each call of a host function keeps the invariant. -/
def Host.Keeps (host : Host η) (inv : HostInvariant η) : Prop :=
  ∀ f arguments directory h calls, inv h directory calls →
    inv (host f arguments directory h).host (host f arguments directory h).directory
      (calls.push (f.name, arguments))

/-- Each call of a declared function keeps the invariant. -/
def Setting.Keeps (setting : Setting η) (inv : HostInvariant η) : Prop :=
  ∀ f ∈ setting.catalog.functions, ∀ arguments directory h calls, inv h directory calls →
    inv (setting.host f arguments directory h).host (setting.host f arguments directory h).directory
      (calls.push (f.name, arguments))

/-- The invariant holds in a world. -/
def World.Holds (inv : HostInvariant η) (w : World η) : Prop :=
  inv w.host w.context.directory w.calls

/-- What is done when a run is over keeps the invariant. -/
def Finisher.Keeps (finisher : Finisher η) (inv : HostInvariant η) : Prop :=
  ∀ result w, w.Holds inv → (finisher.effect result w).2.Holds inv

theorem Finisher.idle_keeps (inv : HostInvariant η) :
    (Finisher.idle : Finisher η).Keeps inv := fun _ _ => id

/-- The contract of runs that keep the invariant. Nobody else changes what it is about. -/
def keptContract (inv : HostInvariant η) : Contract (World η) where
  waits _ w := w.Holds inv
  resumes w _ t :=
    t.host = w.host ∧ t.context.directory = w.context.directory ∧ t.calls = w.calls
  exits _ w := w.Holds inv

namespace Run

variable {inv : HostInvariant η} {setting : Setting η}

theorem kept_housekeeping : Housekeeping (keptContract inv) (World.Holds inv) where
  scopes _ holds := holds
  popped holds := holds
  ends _ holds := holds

theorem kept_returns {w : World η} (holds : w.Holds inv) (f : FunctionSpec) (span : Span)
    (outcome : Outcome) : Returns (keptContract inv) (World.Holds inv) f span w outcome := by
  cases outcome with
  | value | crash => exact holds
  | failure message =>
    show ((handleFailure f span message : Step η Value) w).Meets _ _
    unfold handleFailure
    split
    · exact holds
    · exact ⟨trivial, holds⟩
  | question p =>
    refine ⟨holds, fun r t resumes => ?_⟩
    have holds' : t.Holds inv := by
      rw [World.Holds, resumes.1, resumes.2.1, resumes.2.2]
      exact holds
    exact ⟨holds', fun _ _ => holds'⟩

theorem kept_upkeep (keeps : setting.Keeps inv) :
    Upkeep setting (keptContract inv) (World.Holds inv) fun _ => True where
  toHousekeeping := kept_housekeeping
  overflow _ holds := holds
  unknown _ _ holds := holds
  call := by
    intro c f args kwargs _ found _
    unfold callWith
    split
    · rename_i arguments _
      refine kept_housekeeping.invoke_upholds fun w holds => kept_returns ?_ f c.span _
      exact keeps f (List.mem_of_find?_eq_some found) arguments w.context.directory w.host w.calls
        holds
    · exact Action.Meets.leave fun _ holds => holds

end Run

theorem kept_lasts (inv : HostInvariant η) : (keptContract inv).Lasts (World.Holds inv) where
  cancelled _ holds := holds
  waiting _ holds := holds
  resumes _ same := same
  dropped holds _ := holds

/-- An invariant of the declared functions and of the finisher holds over a whole history. -/
theorem Session.declared_hold {inv : HostInvariant η} {setting : Setting η}
    (keeps : setting.Keeps inv) {finisher : Finisher η} (keeps' : finisher.Keeps inv)
    (script : Block) {world : World η} (start : world.Holds inv) (moves : List Move) :
    (moves.foldl Session.move (ofScript setting script world finisher)).world.Holds inv := by
  have fresh : (ofScript setting script world finisher).Upholds (keptContract inv)
      (World.Holds inv) := by
    refine ⟨start, fun w holds => ?_⟩
    exact (Run.executeAll_upholds (Run.kept_upkeep keeps) script.statements (fun _ _ => trivial) w
      holds).imp fun _ _ both => both.2
  have upholds : (moves.foldl Session.move (ofScript setting script world finisher)).Upholds
      (keptContract inv) (World.Holds inv) :=
    moves_uphold (kept_lasts inv) (fun _ _ _ _ _ => ⟨rfl, rfl, rfl⟩) fresh
  have same : (moves.foldl Session.move (ofScript setting script world finisher)).finisher =
      finisher := moves_finisher _ moves
  refine upholds.holds (fun _ => id) (fun _ _ => id) (fun _ _ => id) (fun _ _ => id)
    (fun _ _ => id) ?_
  rw [same]
  exact keeps'

/-- An invariant of the host and of the finisher holds over a whole history. -/
theorem Session.moves_hold {inv : HostInvariant η} {setting : Setting η}
    (keeps : setting.host.Keeps inv) {finisher : Finisher η} (keeps' : finisher.Keeps inv)
    (script : Block) {world : World η} (start : world.Holds inv) (moves : List Move) :
    (moves.foldl Session.move (ofScript setting script world finisher)).world.Holds inv :=
  declared_hold (fun f _ => keeps f) keeps' script start moves

/-! ## Visits -/

/-- A call of a host function, and where the host stood. -/
structure Visit (η : Type) where
  function : FunctionSpec
  arguments : Arguments
  directory : List String
  host : η

/-- A host whose calls are watched. -/
def Host.watched (host : Host η) : Host (η × List (Visit η)) := fun f arguments directory state =>
  (host f arguments directory state.1).mapHost fun h =>
    (h, state.2 ++ [⟨f, arguments, directory, state.1⟩])

theorem Host.watched_follows (host : Host η) :
    host.Follows (remembered η (List (Visit η))) (fun _ => none) host.watched := by
  intro f arguments directory calls h h' same
  cases same
  exact .same rfl (fun _ _ => rfl) ⟨rfl, rfl, (List.append_nil _).symm, rfl, fun _ => rfl⟩

/-- A visit as a run keeps track of it. -/
def Visit.call (v : Visit η) : String × Arguments := (v.function.name, v.arguments)

/-- An invariant and the visits so far: it holds now and held at each of them, and they are the calls
since some earlier ones. -/
def HostInvariant.watched (inv : HostInvariant η) (earlier : List (String × Arguments)) :
    HostInvariant (η × List (Visit η)) := fun state directory calls =>
  inv state.1 directory calls ∧ calls.toList = earlier ++ state.2.map Visit.call ∧
    ∀ visit ∈ state.2, ∃ before, inv visit.host visit.directory before

theorem Host.Keeps.watched {host : Host η} {inv : HostInvariant η} (keeps : host.Keeps inv)
    (earlier : List (String × Arguments)) : host.watched.Keeps (inv.watched earlier) := by
  intro f arguments directory state calls ⟨holds, told, held⟩
  refine ⟨keeps f arguments directory state.1 calls holds, ?_,
    List.forall_mem_append.2 ⟨held, List.forall_mem_singleton.2 ⟨calls, holds⟩⟩⟩
  let visit : Visit η := ⟨f, arguments, directory, state.1⟩
  have visits : (state.2 ++ [visit]).map Visit.call = state.2.map Visit.call ++ [visit.call] :=
    List.map_append
  rw [Array.toList_push, told, List.append_assoc]
  exact congrArg (earlier ++ ·) visits.symm

theorem Finisher.Keeps.watched {finisher : Finisher η} {inv : HostInvariant η}
    (keeps : finisher.Keeps inv) (modest : finisher.Modest)
    (earlier : List (String × Arguments)) : finisher.withMemory.Keeps (inv.watched earlier) := by
  intro result w ⟨holds, told, held⟩
  rw [withMemory_effect]
  refine ⟨keeps result (w.mapHost Prod.fst) holds, ?_, held⟩
  have same : (finisher.effect result (w.mapHost Prod.fst)).2.calls = w.calls :=
    modest.calls result (w.mapHost Prod.fst)
  exact (congrArg Array.toList same).trans told

namespace Session

variable (setting : Setting η) (script : Block) (world : World η) (finisher : Finisher η)

/-- A session whose host is watched. -/
def ofWatched : Session (η × List (Visit η)) :=
  ofScript (setting.withHost setting.host.watched) script (world.withMemory []) finisher.withMemory

variable {finisher}

/-- A run whose host is watched shows the same. -/
theorem watched_same (modest : finisher.Modest) (moves : List Move) :
    (moves.foldl Session.move (ofScript setting script world finisher)).Same
      (moves.foldl Session.move (ofWatched setting script world finisher)) :=
  (Plays.of_none _ moves).same setting.host.watched_follows (world.like_remembered [])
    finisher.alike_remembered modest.keepsRun (Finisher.withMemory_keepsRun modest.keepsRun)

variable {world}

/-- The visits are the calls of the run, and an invariant of the host and of the finisher holds at
each of them. -/
theorem visits_hold {inv : HostInvariant η} (keeps : setting.host.Keeps inv)
    (keeps' : finisher.Keeps inv) (modest : finisher.Modest)
    (start : world.Holds inv) (moves : List Move) :
    let watched := moves.foldl Session.move (ofWatched setting script world finisher)
    watched.world.calls.toList = world.calls.toList ++ watched.world.host.2.map Visit.call ∧
      ∀ visit ∈ watched.world.host.2, ∃ before, inv visit.host visit.directory before := by
  have start : (world.withMemory ([] : List (Visit η))).Holds (inv.watched world.calls.toList) :=
    ⟨start, (List.append_nil _).symm, List.forall_mem_nil _⟩
  exact (moves_hold (keeps.watched world.calls.toList) (keeps'.watched modest world.calls.toList)
    script start moves).2

end Session

end InstallScript
