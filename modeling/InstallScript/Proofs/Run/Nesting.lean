import InstallScript.Proofs.Run.Memory
import InstallScript.Proofs.Run.ChronicleOfRuns
import InstallScript.Proofs.Run.Growth
import InstallScript.Proofs.Run.Variables

/-!
The nesting of blocks. There are always as many frames as block bodies around what is being
executed, and when a run is over all frames that it has opened are closed, however it has ended.
What a block does to the variables around it is what `Scopes.Step` allows: it changes values of
names that it sets, in the nearest frame that binds them, and nothing else (`Run.Nested`). Both are
put together in `scope_discipline`.
-/

namespace InstallScript

variable {η : Type}

/-! ## Inside a block -/

/-- The variables have been reached from others inside a block, and there are so many frames. -/
structure Scopes.Inside (floor : Nat) (targets : String → Prop) (s : Scopes) (depth : Nat)
    (s' : Scopes) : Prop where
  reaches : s.Reaches floor targets s'
  depth : s'.depth = depth

/-- The contract of what is done inside a block, if there are so many frames when it is over. -/
def insideContract (η : Type) (floor : Nat) (targets : String → Prop) (s : Scopes) (depth : Nat) :
    Contract (World η) where
  waits _ w := s.Reaches floor targets w.context.scopes
  resumes w _ t := t.context.scopes = w.context.scopes
  exits _ w := s.Inside floor targets depth w.context.scopes

/-- What a block may do to the variables around it, if it sets the given names. -/
structure Scopes.Nested (targets : String → Prop) (s s' : Scopes) : Prop where
  /-- Step by step. -/
  reaches : s.Reaches s.depth targets s'
  /-- All in all. -/
  keeps : s.KeepsEnclosing s.depth (fun key => ∃ name, targets name ∧ s.key name = key) s'

/-- The contract of a block that is run when there are the given variables. -/
def nestedContract (η : Type) (targets : String → Prop) (s : Scopes) : Contract (World η) where
  waits _ w := s.Nested targets w.context.scopes
  resumes w _ t := t.context.scopes = w.context.scopes
  exits _ w := s.Nested targets w.context.scopes ∧ w.context.scopes.depth = s.depth

/-- A block body sets a name, or a block body inside it does. -/
def Block.Sets (b : Block) (name : String) : Prop :=
  ∃ span value, Node.stmt (.assign span .update name value) ∈ b.walk

namespace Run

section

variable {floor depth : Nat} {targets : String → Prop} {s : Scopes} {α β : Type}

/-- A step inside a block that closes the frames that it opens. -/
abbrev StaysInside (floor : Nat) (targets : String → Prop) (s : Scopes) (depth : Nat)
    (m : Step η α) : Prop :=
  Action.Meets (insideContract η floor targets s depth)
    (fun w => s.Inside floor targets depth w.context.scopes) m
    fun _ w => s.Inside floor targets depth w.context.scopes

theorem stays_of_rests {w : World η} {c : Course (World η) α} (rests : c.Rests w)
    (inside : s.Inside floor targets depth w.context.scopes) :
    c.Meets (insideContract η floor targets s depth)
      fun _ w => s.Inside floor targets depth w.context.scopes := by
  have stays (v : World η) (same : w.Rests v) : s.Inside floor targets depth v.context.scopes := by
    rw [same.scopes]
    exact inside
  exact rests.meets (fun _ => stays) fun _ => stays

theorem writeVariable_stays (deep : floor < depth) {span : Span} {mode : AssignMode} {name : String}
    {value : Value} (target : mode = .update → targets name) :
    StaysInside floor targets s depth (writeVariable span mode name value : Step η Unit) := by
  rintro w ⟨reaches, same⟩
  unfold writeVariable
  split
  · refine ⟨reaches.tail (.binds ?_ name value), ?_⟩
    · omega
    · exact (Scopes.depth_bind _ _ _).trans same
  · split
    · rename_i scopes updates
      have changed := Scopes.changed_of_update? updates
      exact ⟨reaches.tail (.sets (target rfl) changed), changed.depth.trans same⟩
    · exact ⟨reaches, same⟩

/-- A frame that is opened inside a block is closed again. Around it there may be no other frame of
the block. -/
theorem inFrame_stays (deep : floor ≤ depth) {name : String} {m : Step η α}
    (stays : StaysInside floor targets s (depth + 1) m) :
    StaysInside floor targets s depth (inFrame name m) := by
  have closes (v : World η) (inside : s.Inside floor targets (depth + 1) v.context.scopes) :
      s.Inside floor targets depth (v.mapScopes (·.pop)).context.scopes := by
    obtain ⟨reaches, same⟩ := inside
    refine ⟨reaches.tail (.closes ?_), ?_⟩
    · omega
    · exact (Scopes.depth_pop _).trans (by omega)
  rintro w ⟨reaches, same⟩
  have opened : s.Inside floor targets (depth + 1) (w.mapScopes (·.push name)).context.scopes :=
    ⟨reaches.tail (.opens name), congrArg (· + 1) same⟩
  exact (stays _ opened).atEnd (fun _ _ => id) (fun _ _ _ => id) (fun _ => closes) fun _ => closes

theorem stays_of_calls {w : World η} {c : Course (World η) α} (calls : Calls w c)
    (inside : s.Inside floor targets depth w.context.scopes) :
    c.Meets (insideContract η floor targets s depth)
      fun _ w => s.Inside floor targets depth w.context.scopes := by
  cases calls with
  | refused rests => exact stays_of_rests rests inside
  | made scopes _ rests =>
    rw [← scopes] at inside
    exact stays_of_rests rests inside
  | asks scopes _ rests =>
    rw [← scopes] at inside
    refine ⟨inside.reaches, fun r t resumes => ?_⟩
    rw [← resumes] at inside
    exact stays_of_rests (rests r t) inside

theorem stays_tracing (setting : Setting η) (floor : Nat) (targets : String → Prop) (s : Scopes) :
    StatementTracing setting (fun mode name => mode = .update → targets name) fun _ _ m _ =>
      ∀ depth, floor < depth → StaysInside floor targets s depth m where
  pure _ _ := Action.Meets.pure fun _ inside => inside
  bind first second depth deep := (first depth deep).bind fun a => second a depth deep
  mono _ stays := stays
  leave _ _ := Action.Meets.leave fun _ inside => inside
  mark _ _ _ := Action.Meets.pure fun _ inside => inside
  checkCancelled _ _ := fun w inside => stays_of_rests (checkCancelled_rests w) inside
  readVariable _ _ := fun w inside => stays_of_rests (readVariable_rests w) inside
  writeVariable target _ deep := writeVariable_stays deep target
  inFrame _ _ _ stays depth deep :=
    inFrame_stays (Nat.le_of_lt deep) (stays (depth + 1) (Nat.lt_succ_of_lt deep))
  call _ _ _ := fun w inside => stays_of_calls (callWith_calls w) inside

end

/-! ## Blocks -/

/-- A step that does to variables what a block may do that sets the given names. At every stop that
it comes to, whatever it is told, the frames that were there before and the globals have kept their
names, and values have changed only of names that it sets, in the nearest frames that bound them;
and when it is over, as many frames are left as there were before. -/
def Nested (targets : String → Prop) (m : Step η Unit) : Prop :=
  ∀ w, (m w).Meets (nestedContract η targets w.context.scopes)
    fun _ v => w.context.scopes.Nested targets v.context.scopes ∧
      v.context.scopes.depth = w.context.scopes.depth

theorem nested_of_stays {targets : String → Prop} {m : Step η Unit}
    (stays : ∀ s : Scopes, StaysInside s.depth targets s s.depth m) : Nested targets m := by
  intro w
  have keeps {s' : Scopes} (reaches : w.context.scopes.Reaches w.context.scopes.depth targets s') :
      w.context.scopes.Nested targets s' := ⟨reaches, Scopes.keeps_enclosing reaches le_rfl⟩
  refine (stays w.context.scopes w ⟨.refl, rfl⟩).mono ?_ ?_ ?_ ?_
  · exact fun _ _ reaches => keeps reaches
  · exact fun _ _ _ => id
  · exact fun _ _ inside => ⟨keeps inside.reaches, inside.depth⟩
  · exact fun _ _ inside => ⟨keeps inside.reaches, inside.depth⟩

/-- A node that changes a variable other than by binding it. -/
theorem eq_assign_of_written {node : Node} {name : String}
    (written : written? node = some (.update, name)) :
    ∃ span value, node = .stmt (.assign span .update name value) := by
  unfold written? at written
  split at written
  · rename_i span _ _ value
    cases written
    exact ⟨span, value, rfl⟩
  · cases written
  · cases written

theorem executeAll_stays (setting : Setting η) (b : Block) {floor depth : Nat} (deep : floor < depth)
    (s : Scopes) : StaysInside floor b.Sets s depth (executeAll setting b.statements) := by
  obtain ⟨span, statements⟩ := b
  have changes : Changes (fun mode name => mode = .update → (Block.mk span statements).Sets name)
      (walkStmts statements) := by
    rintro node member mode name written rfl
    obtain ⟨place, value, rfl⟩ := eq_assign_of_written written
    exact ⟨place, value, List.mem_cons_of_mem _ member⟩
  exact (stays_tracing setting floor _ s).executeAll [] statements changes depth deep

/-- The body of a branch or of a loop with a guard, or a block for itself. -/
theorem executeBlock_nested (setting : Setting η) (name : String) (b : Block) :
    Nested b.Sets (executeBlock setting name b) := by
  refine nested_of_stays fun s => ?_
  have inner := executeAll_stays setting b (Nat.lt_succ_self s.depth) s
  obtain ⟨span, statements⟩ := b
  exact inFrame_stays le_rfl inner

/-- The body of a counted loop. -/
theorem counted_nested (setting : Setting η) (span : Span) (counter : String) (current : Number)
    (b : Block) :
    Nested b.Sets (inFrame "for-loop" do
      writeVariable span .bind counter (.ofNumber current)
      executeAll setting b.statements) := by
  refine nested_of_stays fun s => inFrame_stays le_rfl ?_
  have deep := Nat.lt_succ_self s.depth
  have bound : StaysInside s.depth b.Sets s (s.depth + 1)
      (writeVariable span .bind counter (.ofNumber current) : Step η Unit) :=
    writeVariable_stays deep nofun
  exact bound.bind fun _ => executeAll_stays setting b deep s

end Run

/-! ## Sessions -/

namespace Session

theorem Abreast.waiting_iff {η' : Type} {l : Likeness η η'} {answers : Nat → Option Datum}
    {s : Session η} {s' : Session η'} (abreast : s.Abreast l answers s')
    (unprepared : s.prepared? answers = none) :
    (∃ p next, s.phase = .waiting p next) ↔ ∃ p next, s'.phase = .waiting p next := by
  obtain ⟨world, phase, finisher⟩ := s
  obtain ⟨world', phase', finisher'⟩ := s'
  cases abreast with
  | fresh phase phase' | finished phase phase' | broken phase phase' =>
    cases phase
    cases phase'
    constructor <;> rintro ⟨p, next, waits⟩ <;> cases waits
  | waiting phase phase' => exact ⟨fun _ => ⟨_, _, phase'⟩, fun _ => ⟨_, _, phase⟩⟩
  | ahead phase prepared =>
    cases phase
    cases unprepared.symm.trans prepared

theorem traced_scopes (setting : Setting η) (script : Block) (world : World η)
    {finisher : Finisher η} (modest : finisher.Modest) (moves : List Move) :
    (moves.foldl Session.move (ofScript setting script world finisher)).world.context.scopes =
      (moves.foldl Session.move (ofTraced setting script world finisher)).world.context.scopes := by
  refine (traced_abreast setting script world finisher moves).relates
    (Plays.of_none _ moves).unprepared (·.context.scopes) (·.context.scopes) Eq
    (fun _ _ like => congrArg Context.scopes like.context) (fun _ _ => rfl) (fun _ _ => rfl) ?_ ?_
  · rw [moves_finisher]
    exact modest.scopes none
  · rw [moves_finisher]
    exact modest.withMemory.scopes none

end Session

/-- The discipline of scopes. A session shows the same as one that keeps a trace, with the same
variables, and the calls of its host are those in the trace. At every event, and so at every call,
there are as many frames, besides those at the start, as block bodies around the code that is being
executed; likewise at every suspension, which comes right behind a call; and when nothing is waited
for, before the run starts and whenever it is over, there are only the frames of the start. The body
of a loop starts with a frame that binds its counter, if it has one, and nothing else. And whatever
block is run with whatever variables, around it only names change that it sets. -/
theorem scope_discipline (setting : Setting η) (script : Block) (world : World η)
    {finisher : Finisher η} (modest : finisher.Modest) (moves : List Session.Move) :
    let session := moves.foldl Session.move (Session.ofScript setting script world finisher)
    let traced := moves.foldl Session.move (Session.ofTraced setting script world finisher)
    let trace := traced.world.host.2
    let base := world.context.scopes.depth
    (session.Same traced ∧ session.world.context.scopes = traced.world.context.scopes ∧
        ∃ made, session.world.calls.toList = world.calls.toList ++ made ∧
          List.Forall₂ (Call.Made setting.catalog) (callsIn trace) made) ∧
      (∀ m ∈ trace, script.Encloses m.blocks ∧ m.scopes.depth = base + m.blocks.length) ∧
      (∀ m ∈ trace, ∀ c, m.deed = .call c →
        ∃ s ∈ (m.blocks.headD script).statements, c ∈ s.ownCalls) ∧
      ((∃ p next, session.phase = .waiting p next) → ∃ m earlier c, trace = m :: earlier ∧
        m.deed = .call c ∧ m.scopes = session.world.context.scopes) ∧
      ((¬ ∃ p next, session.phase = .waiting p next) → session.world.context.scopes.depth = base) ∧
      (∀ later m earlier number counter, trace = later ++ m :: earlier →
        m.deed = .iteration number counter → ∃ body blocks s name, m.blocks = body :: blocks ∧
          statementOf earlier = some s ∧ s.Repeats body (counter.map Prod.fst) ∧
          m.scopes.frames.head? =
            some ⟨name, (counter.map fun c => (m.scopes.key c.1, Value.ofNumber c.2)).toList⟩) ∧
      (∀ name b, Run.Nested b.Sets (Run.executeBlock setting name b)) ∧
      ∀ span counter current (b : Block), Run.Nested b.Sets (Run.inFrame "for-loop" do
        Run.writeVariable span .bind counter (.ofNumber current)
        Run.executeAll setting b.statements) := by
  intro session traced trace base
  have chronicled : traced.Chronicled script base setting.maxIterations (Session.ToldBy moves) :=
    Session.traced_chronicled setting script world modest moves
  have orderly : Orderly script base setting.maxIterations trace := chronicled.orderly
  have same : session.Same traced :=
    Session.traced_same setting script world finisher moves modest.keepsRun
  have scopes : session.world.context.scopes = traced.world.context.scopes :=
    Session.traced_scopes setting script world modest moves
  have waiting : (∃ p next, session.phase = .waiting p next) ↔
      ∃ p next, traced.phase = .waiting p next :=
    (Session.traced_abreast setting script world finisher moves).waiting_iff
      (Session.Plays.of_none _ moves).unprepared
  refine ⟨⟨same, scopes, ?_⟩, fun m member => ?_, fun m member c deed => ?_, fun waits => ?_,
    fun idle => ?_, fun later m earlier number counter eq deed => ?_,
    Run.executeBlock_nested setting, Run.counted_nested setting⟩
  · rw [same.calls]
    exact Session.traced_calls setting script world modest moves
  · obtain ⟨earlier, follows⟩ := orderly.follows_of_mem member
    exact ⟨follows.encloses, follows.depth⟩
  · obtain ⟨earlier, follows⟩ := orderly.follows_of_mem member
    obtain ⟨s, inside, -, left⟩ := follows.belongs.call deed
    exact ⟨s, inside, left.subset (by simp)⟩
  · obtain ⟨p, next, phase⟩ := waiting.1 waits
    obtain ⟨m, earlier, c, eq, deed, atCall⟩ := (chronicled.suspended phase).atCall
    exact ⟨m, earlier, c, eq, deed, atCall.trans scopes.symm⟩
  · rw [scopes]
    exact chronicled.closed fun p next phase => idle (waiting.2 ⟨p, next, phase⟩)
  · rw [eq] at orderly
    obtain ⟨body, blocks, s, name, places, inProgress, repeats, -, -, -, frame⟩ :=
      orderly.follows.belongs.iteration deed
    exact ⟨body, blocks, s, name, places, inProgress, repeats, frame⟩

/-- The session of the script. -/
def askingInLoop : Session Unit := Session.ofScript asker askedInLoop ⟨{}, (), none, #[], #[]⟩

theorem asked_in_loop :
    (askingInLoop.move .start).world.context.scopes.depth = 1 ∧ ∃ m earlier c,
      ([.start].foldl Session.move (Session.ofTraced asker askedInLoop ⟨{}, (), none, #[], #[]⟩
        Finisher.idle)).world.host.2 = m :: earlier ∧ m.deed = .call c ∧ m.blocks.length = 1 := by
  have deep : (askingInLoop.move .start).world.context.scopes.depth = 1 := by decide +kernel
  obtain ⟨-, depths, -, waits, closed, -⟩ := scope_discipline asker askedInLoop
    ⟨{}, (), none, #[], #[]⟩ Finisher.idle_modest [.start]
  have asks : ∃ p next, (askingInLoop.move .start).phase = .waiting p next := by
    by_contra idle
    have shallow : (askingInLoop.move .start).world.context.scopes.depth = 0 := closed idle
    omega
  obtain ⟨m, earlier, c, trace, deed, scopes⟩ := waits asks
  have inside := (depths m (trace ▸ List.mem_cons_self)).2
  refine ⟨deep, m, earlier, c, trace, deed, ?_⟩
  calc m.blocks.length = m.scopes.depth := by
        rw [inside]
        exact (Nat.zero_add _).symm
    _ = 1 := by
        rw [scopes]
        exact deep

end InstallScript
