import InstallScript.Proofs.Run.Chronicle
import InstallScript.Proofs.Run.History
import InstallScript.Proofs.Run.Quiet

/-!
What a run does to its world in the course of time. A relation between an earlier and a later world
holds from the beginning of a run on, and from every point on at which it goes on, whatever it is
told (`Course.Evolves`). So it holds between any two points of the history of a session
(`Session.moves_evolve`).

In particular, traces grow. What a run does is added in front of its trace, and the calls that it
makes of its host are those that the trace tells of, in the same order; once a run is cancelled, all
that it does is done in a cancelled run (`Session.traced_continues`). This is an instance of what
runs with a trace do to their worlds step by step (`Traced.Evolving.tracing`).
-/

namespace InstallScript

section

variable {σ α β : Type} {rel : σ → σ → Prop}

/-- The relation holds between the state in which a computation starts or goes on and those in which
it waits next or ends. -/
def Course.Evolves (rel : σ → σ → Prop) : σ → Course σ α → Prop
  | s, .done _ t => rel s t
  | s, .exit _ t => rel s t
  | s, .ask _ t next => rel s t ∧ ∀ r u, (next r u).Evolves rel u

namespace Course.Evolves

variable {s t : σ} {c : Course σ α}

theorem trans (transitive : ∀ {s t u}, rel s t → rel t u → rel s u) (first : rel s t)
    (evolves : c.Evolves rel t) : c.Evolves rel s := by
  cases c with
  | done a u => exact transitive first evolves
  | exit why u => exact transitive first evolves
  | ask p u next => exact ⟨transitive first evolves.1, evolves.2⟩

theorem andThen (transitive : ∀ {s t u}, rel s t → rel t u → rel s u)
    {f : α → σ → Course σ β} (evolves : c.Evolves rel s)
    (next : ∀ a t, (f a t).Evolves rel t) : (c.andThen f).Evolves rel s := by
  induction c generalizing s with
  | done a t => exact trans transitive evolves (next a t)
  | exit why t => exact evolves
  | ask p t goesOn ih => exact ⟨evolves.1, fun r u => ih r u (evolves.2 r u)⟩

theorem atEnd {change : σ → σ} (changes : ∀ {s t}, rel s t → rel s (change t))
    (evolves : c.Evolves rel s) : (c.atEnd change).Evolves rel s := by
  induction c generalizing s with
  | done a t => exact changes evolves
  | exit why t => exact changes evolves
  | ask p t goesOn ih => exact ⟨evolves.1, fun r u => ih r u (evolves.2 r u)⟩

end Course.Evolves

end

variable {η : Type}

/-- A relation that holds of what is left alone holds over a quiet step. -/
theorem Course.Rests.evolves {α : Type} {rel : World η → World η → Prop} {w : World η}
    {c : Course (World η) α} (rests : c.Rests w) (quiet : ∀ {v}, w.Rests v → rel w v) :
    c.Evolves rel w := by
  cases rests with
  | done same => exact quiet same
  | exit same => exact quiet same

/-! ## Sessions -/

/-- A relation between worlds that also holds of what happens when a run is over, and when it is
cancelled from outside. -/
structure Finisher.Evolves (finisher : Finisher η) (rel : World η → World η → Prop) : Prop where
  refl : ∀ w, rel w w
  trans : ∀ {w v u}, rel w v → rel v u → rel w u
  note : ∀ w level logger message, rel w (w.note level logger message)
  cancel : ∀ w reason, rel w { w with cancelled := some reason }
  effect : ∀ result w, rel w (finisher.effect result w).2

/-- Whatever is done to a session, its run evolves. -/
def Phase.Evolves (rel : World η → World η → Prop) : Phase η → Prop
  | .fresh program => ∀ w, (program w).Evolves rel w
  | .waiting _ next => ∀ r w, (next r w).Evolves rel w
  | .finished _ => True
  | .broken _ => True

namespace Session

variable {rel : World η → World η → Prop}

theorem conclude_evolves {s : Session η} (evolves : s.finisher.Evolves rel) (before : RunResult)
    (w : World η) :
    rel w (conclude { s with world := w } before).2.world ∧
      (conclude { s with world := w } before).2.phase.Evolves rel := by
  rw [conclude, complete_snd]
  exact ⟨evolves.trans (evolves.note _ _ _ _) (evolves.effect _ _), trivial⟩

theorem settle_evolves {s : Session η} (evolves : s.finisher.Evolves rel) {w : World η}
    {course : Course (World η) Unit} (goesOn : course.Evolves rel w) (last : Option Prompt) :
    rel w (s.settle last course).2.world ∧ (s.settle last course).2.phase.Evolves rel := by
  cases course with
  | done _ v =>
    obtain ⟨later, phase⟩ := conclude_evolves evolves (resultOf v .success none none) v
    exact ⟨evolves.trans goesOn later, phase⟩
  | ask p v next => exact goesOn
  | exit why v =>
    unfold settle
    dsimp only
    split
    · rename_i result _
      obtain ⟨later, phase⟩ := conclude_evolves evolves result v
      exact ⟨evolves.trans goesOn later, phase⟩
    · exact ⟨goesOn, trivial⟩

theorem Step.evolves {s : Session η} {m : Move} {out : Report × Session η} (step : s.Step m out)
    (evolves : s.finisher.Evolves rel) (phase : s.phase.Evolves rel) :
    rel s.world out.2.world ∧ out.2.phase.Evolves rel := by
  cases step with
  | started fresh =>
    rw [fresh] at phase
    exact settle_evolves evolves (phase _) _
  | told waiting =>
    rw [waiting] at phase
    exact settle_evolves evolves (phase _ _) _
  | dropped => exact conclude_evolves evolves _ _
  | kept | refused | abandoned => exact ⟨evolves.refl _, phase⟩
  | cancelled reason => exact ⟨evolves.cancel _ _, phase⟩
  | lapsed => exact ⟨evolves.effect _ _, trivial⟩

/-- The relation holds between the world of a session and its world after further moves. -/
theorem moves_evolve {s : Session η} (evolves : s.finisher.Evolves rel)
    (phase : s.phase.Evolves rel) (moves : List Move) :
    rel s.world (moves.foldl Session.move s).world ∧
      (moves.foldl Session.move s).phase.Evolves rel := by
  induction moves generalizing s with
  | nil => exact ⟨evolves.refl _, phase⟩
  | cons m moves ih =>
    obtain ⟨first, phase'⟩ := (s.step m).evolves evolves phase
    have evolves' : (s.move m).finisher.Evolves rel := (s.step m).finisher ▸ evolves
    obtain ⟨others, final⟩ := ih evolves' phase'
    exact ⟨evolves.trans first others, final⟩

end Session

/-! ## Traces -/

/-- A call of the script has become a call of the host. -/
def Call.Made (catalog : Catalog) (c : Call) (made : String × Arguments) : Prop :=
  ∃ f, catalog.get? c.name = some f ∧ made.1 = f.name

/-- What may have come of a world. The trace has grown and, since the run was cancelled, it has
grown by events in a cancelled run only; the calls of the host that have been made are those of the
trace. -/
structure World.Continues (catalog : Catalog) (w v : World (η × List Event)) : Prop where
  cancelled : v.cancelled = none → w.cancelled = none
  trace : ∃ later made, v.host.2 = later ++ w.host.2 ∧
    (∀ m ∈ later, m.cancelled = none → w.cancelled = none) ∧
    v.calls.toList = w.calls.toList ++ made ∧ List.Forall₂ (Call.Made catalog) (callsIn later) made

namespace World.Continues

variable {catalog : Catalog} {w v u : World (η × List Event)}

theorem of_eq (trace : v.host.2 = w.host.2) (cancelled : v.cancelled = none → w.cancelled = none)
    (calls : v.calls = w.calls) : w.Continues catalog v :=
  ⟨cancelled, [], [], trace, List.forall_mem_nil _, by rw [calls, List.append_nil], .nil⟩

theorem of_rests (rests : w.Rests v) : w.Continues catalog v :=
  .of_eq (congrArg Prod.snd rests.host) (fun open' => rests.cancelled.symm.trans open') rests.calls

theorem trans (first : w.Continues catalog v) (second : v.Continues catalog u) :
    w.Continues catalog u := by
  obtain ⟨later, made, eq, marks, calls, matched⟩ := first.trace
  obtain ⟨later', made', eq', marks', calls', matched'⟩ := second.trace
  refine ⟨fun open' => first.cancelled (second.cancelled open'), later' ++ later, made ++ made', ?_,
    ?_, ?_, ?_⟩
  · rw [eq', eq, List.append_assoc]
  · intro m member open'
    rcases List.mem_append.1 member with late | early
    · exact first.cancelled (marks' m late open')
    · exact marks m early open'
  · rw [calls', calls, List.append_assoc]
  · rw [callsIn_append]
    exact List.rel_append matched matched'

end World.Continues

namespace Traced

/-- A relation between an earlier and a later world of a run with a trace that holds over single
steps. Only targets are written. -/
structure Evolving (setting : Setting η) (targets : AssignMode → String → Prop)
    (rel : World (η × List Event) → World (η × List Event) → Prop) : Prop where
  trans : ∀ {w v u}, rel w v → rel v u → rel w u
  rests : ∀ {w v}, w.Rests v → rel w v
  /-- A mark other than that of a call. -/
  mark : ∀ {w blocks deed}, (∀ c, deed ≠ .call c) → rel w (w.marked blocks deed)
  call : ∀ {w blocks c f arguments}, setting.catalog.get? c.name = some f →
    rel w ((w.marked blocks (.call c)).call setting.traced.host f arguments c.span).2
  bind : ∀ {w name value}, targets .bind name → rel w (w.mapScopes (·.bind name value))
  update : ∀ {w name value scopes}, targets .update name →
    w.context.scopes.update? name value = some scopes → rel w (w.mapScopes fun _ => scopes)
  push : ∀ {w name}, rel w (w.mapScopes (·.push name))
  pop : ∀ {w}, rel w (w.mapScopes (·.pop))

/-- A part of a run between whose worlds the relation holds. -/
abbrev Evolves (rel : World (η × List Event) → World (η × List Event) → Prop) {α : Type}
    (m : Step η α) : Prop :=
  ∀ w, (m w).Evolves rel w

namespace Evolving

variable {setting : Setting η} {targets : AssignMode → String → Prop}
  {rel : World (η × List Event) → World (η × List Event) → Prop} {blocks : List Block} {α β : Type}

theorem step (evolving : Evolving setting targets rel) {m : Step η α}
    (quiet : ∀ w, (m w).Rests w) : Evolves rel m :=
  fun w => (quiet w).evolves evolving.rests

theorem andThen (evolving : Evolving setting targets rel) {m : Step η α} {next : α → Step η β}
    (first : Evolves rel m) (second : ∀ a, Evolves rel (next a)) : Evolves rel (m >>= next) :=
  fun w => (first w).andThen (@trans _ _ _ _ evolving) fun a => second a

theorem leave (evolving : Evolving setting targets rel) {why : Exit} :
    Evolves rel (Action.leave why : Step η α) :=
  fun w => evolving.rests (.refl w)

theorem writeVariable (evolving : Evolving setting targets rel) {span : Span} {mode : AssignMode}
    {name : String} {value : Value} (target : targets mode name) :
    Evolves rel (Run.writeVariable span mode name value : Step η Unit) := by
  intro w
  unfold Run.writeVariable
  split
  · exact evolving.bind target
  · split
    · rename_i scopes updates
      exact evolving.update target updates
    · exact evolving.rests (.refl w)

theorem inFrame (evolving : Evolving setting targets rel) {name : String} {m : Step η α}
    (evolves : Evolves rel m) : Evolves rel (Run.inFrame name m) := by
  intro w
  have inner := (evolves (w.mapScopes (·.push name))).trans (@trans _ _ _ _ evolving) evolving.push
  exact inner.atEnd fun same => evolving.trans same evolving.pop

theorem takeReply (evolving : Evolving setting targets rel) {f : FunctionSpec} {span : Span}
    {p : Prompt} {r : Resumption} :
    Evolves rel (takeReply blocks f span p r : Step η Value) := by
  cases r with
  | leave why => exact evolving.leave
  | reply reply =>
    cases reply with
    | abort => exact evolving.leave
    | answer data =>
      have passes : Evolves rel (pass blocks (.answer p) : Step η Unit) :=
        evolving.andThen (fun _ => evolving.mark nofun)
          fun _ => evolving.step Run.checkCancelled_rests
      refine evolving.andThen passes fun _ => ?_
      split
      · exact evolving.step Run.checkResult_rests
      · exact evolving.leave

theorem callWith (evolving : Evolving setting targets rel) {c : Call} {f : FunctionSpec}
    {args : List Value} {kwargs : List (String × Value)}
    (found : setting.catalog.get? c.name = some f) :
    Evolves rel (callWith setting.traced blocks c f args kwargs) := by
  unfold Traced.callWith
  split
  · rename_i arguments bound
    intro w
    show (invoke setting.traced blocks f c.span arguments (w.marked blocks (.call c))).Evolves _ w
    rw [invoke_apply]
    have called : rel w ((w.marked blocks (.call c)).call setting.traced.host f arguments c.span).2 :=
      evolving.call found
    refine .trans (@trans _ _ _ _ evolving) called ?_
    cases ((w.marked blocks (.call c)).call setting.traced.host f arguments c.span).1 with
    | value data => exact evolving.step Run.checkResult_rests _
    | failure message => exact evolving.step Run.handleFailure_rests _
    | crash d => exact evolving.leave _
    | question p => exact ⟨evolving.rests (.refl _), fun r u => evolving.takeReply u⟩
  · exact evolving.leave

theorem tracing (evolving : Evolving setting targets rel) :
    Run.StatementTracing setting targets fun _ _ _ m => Evolves rel m where
  pure w := evolving.rests (.refl w)
  bind := evolving.andThen
  mono _ evolves := evolves
  leave := evolving.leave
  mark other _ := evolving.mark other
  checkCancelled := evolving.step Run.checkCancelled_rests
  readVariable := evolving.step Run.readVariable_rests
  writeVariable := evolving.writeVariable
  inFrame _ _ _ evolves := evolving.inFrame evolves
  call := evolving.callWith

end Evolving

/-- Over single steps a trace grows by what is done. -/
theorem continues_evolving (setting : Setting η) :
    Evolving setting (fun _ _ => True) (World.Continues setting.catalog) where
  trans := .trans
  rests := .of_rests
  mark := by
    intro w blocks deed other
    refine ⟨id, [w.event blocks deed], [], rfl, List.forall_mem_singleton.2 id,
      (List.append_nil _).symm, ?_⟩
    cases deed with
    | call c => exact absurd rfl (other c)
    | _ => exact .nil
  call := by
    intro w blocks c f arguments found
    refine ⟨World.call_cancelled, [w.event blocks (.call c)], [(f.name, arguments)], rfl,
      List.forall_mem_singleton.2 id, Array.toList_push, ?_⟩
    exact .cons ⟨f, found, rfl⟩ .nil
  bind _ := .of_eq rfl id rfl
  update _ _ := .of_eq rfl id rfl
  push := .of_eq rfl id rfl
  pop := .of_eq rfl id rfl

end Traced

theorem Finisher.Modest.evolves {finisher : Finisher η} (modest : finisher.Modest)
    (catalog : Catalog) :
    (finisher.withMemory : Finisher (η × List Event)).Evolves (World.Continues catalog) where
  refl _ := .of_eq rfl id rfl
  trans := .trans
  note _ _ _ _ := .of_eq rfl id rfl
  cancel _ _ := .of_eq rfl nofun rfl
  effect result w := by
    refine .of_eq (finisher.withMemory_memory result w) ?_ (modest.withMemory.calls result w)
    rw [modest.withMemory.cancelled]
    exact id

/-- From any point of a history on at which the run is cancelled, it acts as a cancelled run. -/
theorem Session.traced_continues (setting : Setting η) (script : Block) (world : World η)
    {finisher : Finisher η} (modest : finisher.Modest) (moves moves' : List Move) :
    (moves.foldl Session.move (ofTraced setting script world finisher)).world.Continues
      setting.catalog
      ((moves ++ moves').foldl Session.move (ofTraced setting script world finisher)).world := by
  have start : (ofTraced setting script world finisher).phase.Evolves
      (World.Continues setting.catalog) :=
    (Traced.continues_evolving setting).tracing.executeAll [] script.statements
      fun _ _ _ _ _ => trivial
  obtain ⟨-, phase⟩ := moves_evolve (modest.evolves setting.catalog) start moves
  have evolves : (moves.foldl Session.move (ofTraced setting script world finisher)).finisher.Evolves
      (World.Continues setting.catalog) := by
    rw [moves_finisher]
    exact modest.evolves setting.catalog
  rw [List.foldl_append]
  exact (moves_evolve evolves phase moves').1

/-- The calls of the host of a session are those that its trace tells of. -/
theorem Session.traced_calls (setting : Setting η) (script : Block) (world : World η)
    {finisher : Finisher η} (modest : finisher.Modest) (moves : List Move) :
    let traced := moves.foldl Session.move (ofTraced setting script world finisher)
    ∃ made, traced.world.calls.toList = world.calls.toList ++ made ∧
      List.Forall₂ (Call.Made setting.catalog) (callsIn traced.world.host.2) made := by
  obtain ⟨later, made, eq, -, calls, matched⟩ :=
    (traced_continues setting script world modest [] moves).trace
  have whole : (moves.foldl Session.move (ofTraced setting script world finisher)).world.host.2 =
      later := eq.trans (List.append_nil later)
  refine ⟨made, calls, ?_⟩
  rwa [whole]

end InstallScript
