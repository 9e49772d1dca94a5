import InstallScript.Proofs.Run.Erasure
import InstallScript.Proofs.Run.Quiet

/-!
What the trace of a run looks like. Every event has its place in the script, and what it tells fits
what has happened before (`Event.Follows`): nothing comes after a boundary at which the run was
found to be cancelled; there are as many frames as block bodies that the event stands in; a call is
one of the calls that the statement in progress has left to make; and the runs of a loop's body are
counted up to the limit. The contract of runs with a trace (`chronicle`) says this of all stops, and
tells for every end what has led to it. Here it is shown of expressions; for statements see
`InstallScript.Proofs.Run.ChronicleOfRuns`.
-/

namespace InstallScript

/-! ## Places in a script -/

/-- The block bodies directly below a statement. -/
def Stmt.bodies : Stmt → List Block
  | .choice _ branches otherwise => branches.map Branch.body ++ otherwise.toList
  | .whileLoop _ _ body => [body]
  | .forLoop _ _ _ _ _ body => [body]
  | .block body => [body]
  | .assign _ _ _ _ | .call _ | .ret _ | .comment _ _ => []

/-- Block bodies of a script that stand in each other, innermost first. -/
inductive Block.Encloses (script : Block) : List Block → Prop
  | nil : Encloses script []
  | cons {blocks : List Block} {s : Stmt} {body : Block} (outer : Encloses script blocks)
    (member : s ∈ (blocks.headD script).statements) (inner : body ∈ s.bodies) :
    Encloses script (body :: blocks)

/-- A loop and its body; a counted loop and its variable. -/
inductive Stmt.Repeats : Stmt → Block → Option String → Prop
  | whileLoop {span : Span} {condition : Expr} {body : Block} :
    Repeats (.whileLoop span condition body) body none
  | forLoop {span : Span} {counter : String} {first last : Expr} {step : Option Expr}
    {body : Block} : Repeats (.forLoop span counter first last step body) body (some counter)

/-- A statement that may be the last one to be started when another one is run to its end: that one
itself, or the last one in a body that it runs once. -/
inductive Stmt.LastOf : Stmt → Stmt → Prop
  | refl (s : Stmt) : LastOf s s
  | choice {s t : Stmt} {span : Span} {branches : List Branch} {otherwise : Option Block}
    {body : Block} (member : body ∈ (Stmt.choice span branches otherwise).bodies)
    (last : body.statements.getLast? = some t) (inner : LastOf s t) :
    LastOf s (.choice span branches otherwise)
  | block {s t : Stmt} {body : Block} (last : body.statements.getLast? = some t)
    (inner : LastOf s t) : LastOf s (.block body)

theorem Stmt.Repeats.mem_bodies {s : Stmt} {body : Block} {counter : Option String}
    (repeats : s.Repeats body counter) : body ∈ s.bodies := by
  cases repeats <;> simp [bodies]

/-! ## Events -/

/-- No boundary has found the run cancelled. -/
def GoesOn (trace : List Event) : Prop := ∀ m ∈ trace, m.AtBoundary → m.cancelled = none

/-- The last thing that has happened is that the body of a loop has been entered. -/
def Entered (trace : List Event) : Prop :=
  ∃ m earlier number counter, trace = m :: earlier ∧ m.deed = .iteration number counter

/-- What an event has to do with the script and with the events before it, of which the last comes
first. A counted loop looks whether the run has been cancelled right before it enters its body; of
another loop the guard comes in between. -/
def Event.Belongs (script : Block) (limit : Nat) (m : Event) (earlier : List Event) : Prop :=
  match m.deed with
  | .boundary (.statement s) => s ∈ (m.blocks.headD script).statements
  | .boundary (.round s) => s ∈ (m.blocks.headD script).statements
  | .boundary (.answer _) => True
  | .call c => ∃ s ∈ (m.blocks.headD script).statements, statementOf earlier = some s ∧
      List.Sublist (callsSince earlier ++ [c]) s.ownCalls
  | .iteration number counter => ∃ body blocks s name, m.blocks = body :: blocks ∧
      statementOf earlier = some s ∧ s.Repeats body (counter.map Prod.fst) ∧
      number = iterationsSince blocks.length earlier + 1 ∧ number ≤ limit ∧
      (counter.isSome = true → m.cancelled = none) ∧ m.scopes.frames.head? =
        some ⟨name, (counter.map fun c => (m.scopes.key c.1, Value.ofNumber c.2)).toList⟩
  | .excess number => ∃ s body counter, statementOf earlier = some s ∧ s.Repeats body counter ∧
      number = limit + 1 ∧ number = iterationsSince m.blocks.length earlier + 1

section

variable {script : Block} {limit : Nat} {m : Event} {earlier : List Event}

theorem Event.Belongs.call (belongs : m.Belongs script limit earlier) {c : Call}
    (deed : m.deed = .call c) :
    ∃ s ∈ (m.blocks.headD script).statements, statementOf earlier = some s ∧
      List.Sublist (callsSince earlier ++ [c]) s.ownCalls := by
  unfold Event.Belongs at belongs
  rwa [deed] at belongs

theorem Event.Belongs.iteration (belongs : m.Belongs script limit earlier) {number : Nat}
    {counter : Option (String × Number)} (deed : m.deed = .iteration number counter) :
    ∃ body blocks s name, m.blocks = body :: blocks ∧ statementOf earlier = some s ∧
      s.Repeats body (counter.map Prod.fst) ∧
      number = iterationsSince blocks.length earlier + 1 ∧ number ≤ limit ∧
      (counter.isSome = true → m.cancelled = none) ∧ m.scopes.frames.head? =
        some ⟨name, (counter.map fun c => (m.scopes.key c.1, Value.ofNumber c.2)).toList⟩ := by
  unfold Event.Belongs at belongs
  rwa [deed] at belongs

theorem Event.Belongs.excess (belongs : m.Belongs script limit earlier) {number : Nat}
    (deed : m.deed = .excess number) :
    ∃ s body counter, statementOf earlier = some s ∧ s.Repeats body counter ∧
      number = limit + 1 ∧ number = iterationsSince m.blocks.length earlier + 1 := by
  unfold Event.Belongs at belongs
  rwa [deed] at belongs

end

/-- An event may come after others, of which the last comes first. Outside all block bodies there
are as many frames as the base says, and no loop runs its body more often than the limit says. -/
structure Event.Follows (script : Block) (base limit : Nat) (m : Event) (earlier : List Event) :
    Prop where
  encloses : script.Encloses m.blocks
  depth : m.scopes.depth = base + m.blocks.length
  goesOn : GoesOn earlier
  /-- A run that is cancelled stays so. -/
  lasts : m.cancelled = none → ∀ n ∈ earlier, n.cancelled = none
  /-- What comes first inside a body, or behind it if it is empty, is a boundary. -/
  entered : Entered earlier → m.AtBoundary
  belongs : m.Belongs script limit earlier

/-- Every event follows the events before it. -/
def Orderly (script : Block) (base limit : Nat) : List Event → Prop
  | [] => True
  | m :: earlier => m.Follows script base limit earlier ∧ Orderly script base limit earlier

theorem not_entered_of_other {m : Event} {earlier : List Event}
    (other : ∀ number counter, m.deed ≠ .iteration number counter) : ¬ Entered (m :: earlier) := by
  rintro ⟨m', earlier', number, counter, eq, deed⟩
  cases eq
  exact other number counter deed

theorem iterationsSince_cons {depth : Nat} {m : Event} {earlier : List Event}
    (inside : depth < m.blocks.length)
    (deeper : ∀ number counter, m.deed = .iteration number counter →
      depth + 1 < m.blocks.length) :
    iterationsSince depth (m :: earlier) = iterationsSince depth earlier := by
  rw [iterationsSince]
  split
  · exact if_neg (by omega)
  · rename_i number counter deed
    have := deeper number counter deed
    exact if_neg (by omega)
  · rfl

namespace Orderly

variable {script : Block} {base limit : Nat}

theorem follows {later earlier : List Event} {m : Event}
    (orderly : Orderly script base limit (later ++ m :: earlier)) :
    m.Follows script base limit earlier := by
  induction later with
  | nil => exact orderly.1
  | cons n later ih => exact ih orderly.2

theorem follows_of_mem {trace : List Event} (orderly : Orderly script base limit trace) {m : Event}
    (member : m ∈ trace) : ∃ earlier, m.Follows script base limit earlier := by
  obtain ⟨later, earlier, rfl⟩ := List.append_of_mem member
  exact ⟨earlier, orderly.follows⟩

end Orderly

variable {η : Type}

/-! ## Worlds -/

/-- The event that a mark adds to the trace. -/
def World.event (w : World (η × List Event)) (blocks : List Block) (deed : Deed) : Event :=
  ⟨deed, blocks, w.context.scopes, w.cancelled⟩

/-- The world after a mark. -/
def World.marked (w : World (η × List Event)) (blocks : List Block) (deed : Deed) :
    World (η × List Event) :=
  w.mapHost fun h => (h.1, w.event blocks deed :: h.2)

/-- The trace so far is in order, the run is to go on, and the loops around the given block bodies
have run their bodies as often as the counts say, by the number of block bodies around the loop. -/
structure Chronicled (script : Block) (base limit : Nat) (counts : Nat → Nat) (blocks : List Block)
    (w : World (η × List Event)) : Prop where
  encloses : script.Encloses blocks
  orderly : Orderly script base limit w.host.2
  goesOn : GoesOn w.host.2
  lasts : w.cancelled = none → ∀ m ∈ w.host.2, m.cancelled = none
  counts : ∀ k < blocks.length, iterationsSince k w.host.2 = counts k

/-- There is one frame for each block body. -/
structure Kept (script : Block) (base limit : Nat) (counts : Nat → Nat) (blocks : List Block)
    (w : World (η × List Event)) : Prop extends Chronicled script base limit counts blocks w where
  depth : w.context.scopes.depth = base + blocks.length

/-- A statement is in progress, has the given calls left to make, and has run its body so often. -/
structure During (script : Block) (base limit : Nat) (counts : Nat → Nat) (blocks : List Block)
    (s : Stmt) (calls : List Call) (number : Nat) (w : World (η × List Event)) : Prop
    extends Kept script base limit counts blocks w where
  member : s ∈ (blocks.headD script).statements
  statement : statementOf w.host.2 = some s
  calls : List.Sublist (callsSince w.host.2 ++ calls) s.ownCalls
  iterations : iterationsSince blocks.length w.host.2 = number
  notEntered : ¬ Entered w.host.2

section

variable {script : Block} {base limit : Nat} {counts : Nat → Nat} {blocks : List Block} {s : Stmt}
  {calls : List Call} {number : Nat} {w v : World (η × List Event)}

theorem Chronicled.of_eq (chronicled : Chronicled script base limit counts blocks w)
    (trace : v.host.2 = w.host.2) (lasts : v.cancelled = none → w.cancelled = none) :
    Chronicled script base limit counts blocks v where
  encloses := chronicled.encloses
  orderly := by
    rw [trace]
    exact chronicled.orderly
  goesOn := by
    rw [trace]
    exact chronicled.goesOn
  lasts := by
    rw [trace]
    exact fun open' => chronicled.lasts (lasts open')
  counts := by
    rw [trace]
    exact chronicled.counts

theorem During.of_eq (during : During script base limit counts blocks s calls number w)
    (trace : v.host.2 = w.host.2) (lasts : v.cancelled = none → w.cancelled = none)
    (scopes : v.context.scopes = w.context.scopes) :
    During script base limit counts blocks s calls number v where
  toChronicled := during.toChronicled.of_eq trace lasts
  depth := by
    rw [scopes]
    exact during.depth
  member := during.member
  statement := by
    rw [trace]
    exact during.statement
  calls := by
    rw [trace]
    exact during.calls
  iterations := by
    rw [trace]
    exact during.iterations
  notEntered := by
    rw [trace]
    exact during.notEntered

/-- Calls may be left out. -/
theorem During.idle {calls' : List Call}
    (during : During script base limit counts blocks s (calls ++ calls') number w) :
    During script base limit counts blocks s calls' number w :=
  { during with
    calls := ((List.sublist_append_right calls calls').append_left _).trans during.calls }

/-- The event that a mark adds follows those before it. -/
theorem Chronicled.follows (chronicled : Chronicled script base limit counts blocks w)
    {blocks' : List Block} {deed : Deed} (encloses : script.Encloses blocks')
    (depth : w.context.scopes.depth = base + blocks'.length)
    (entered : Entered w.host.2 → ∃ b, deed = .boundary b)
    (belongs : (w.event blocks' deed).Belongs script limit w.host.2) :
    (w.event blocks' deed).Follows script base limit w.host.2 :=
  ⟨encloses, depth, chronicled.goesOn, chronicled.lasts, entered, belongs⟩

/-- A mark in the block bodies or further inside. -/
theorem Chronicled.marked (chronicled : Chronicled script base limit counts blocks w)
    {blocks' : List Block} {deed : Deed}
    (follows : (w.event blocks' deed).Follows script base limit w.host.2)
    (open' : ∀ b, deed = .boundary b → w.cancelled = none)
    (inside : blocks.length ≤ blocks'.length)
    (deeper : ∀ number counter, deed = .iteration number counter →
      blocks.length < blocks'.length) :
    Chronicled script base limit counts blocks (w.marked blocks' deed) where
  encloses := chronicled.encloses
  orderly := ⟨follows, chronicled.orderly⟩
  goesOn := List.forall_mem_cons.2 ⟨fun ⟨b, eq⟩ => open' b eq, chronicled.goesOn⟩
  lasts lasts := List.forall_mem_cons.2 ⟨lasts, chronicled.lasts lasts⟩
  counts := by
    intro k less
    refine Eq.trans (iterationsSince_cons ?_ fun number counter eq => ?_) (chronicled.counts k less)
    · exact less.trans_le inside
    · have := deeper number counter eq
      show k + 1 < blocks'.length
      omega

/-- A mark in the block bodies, other than at a boundary that finds the run cancelled. -/
theorem Kept.marked (kept : Kept script base limit counts blocks w) {deed : Deed}
    (entered : Entered w.host.2 → ∃ b, deed = .boundary b)
    (belongs : (w.event blocks deed).Belongs script limit w.host.2)
    (open' : ∀ b, deed = .boundary b → w.cancelled = none)
    (other : ∀ number counter, deed ≠ .iteration number counter) :
    Kept script base limit counts blocks (w.marked blocks deed) where
  toChronicled := kept.toChronicled.marked (kept.follows kept.encloses kept.depth entered belongs)
    open' le_rfl fun number counter eq => absurd eq (other number counter)
  depth := kept.depth

/-- A call of the script is one of those that the statement in progress has left. -/
theorem During.called {c : Call} (during : During script base limit counts blocks s (c :: calls)
    number w) : During script base limit counts blocks s calls number (w.marked blocks (.call c)) := by
  have left : List.Sublist ((callsSince w.host.2 ++ [c]) ++ calls) s.ownCalls := by
    rw [List.append_assoc]
    exact during.calls
  have belongs : (w.event blocks (.call c)).Belongs script limit w.host.2 :=
    ⟨s, during.member, during.statement, (List.sublist_append_left _ calls).trans left⟩
  have kept := during.toKept.marked (fun entered => absurd entered during.notEntered) belongs nofun
    nofun
  exact ⟨kept, during.member, during.statement, left, during.iterations,
    not_entered_of_other nofun⟩

end

/-! ## The contract -/

/-- The run has found at its last event that it was cancelled. -/
def Halted (trace : List Event) (reason : String) : Prop :=
  ∃ m earlier, trace = m :: earlier ∧ m.AtBoundary ∧ m.cancelled = some reason

/-- Statements have been run to their end; before, the given one was in progress. -/
def Through (ss : List Stmt) (prior : Option Stmt) (trace : List Event) : Prop :=
  match ss.getLast? with
  | none => statementOf trace = prior
  | some t => ∃ s, statementOf trace = some s ∧ s.LastOf t

/-- What has led to an end, unless the run has found that it was cancelled. -/
inductive Ending (script : Block) (told : Exit → Prop) (trace : List Event) : Exit → Prop
  | returned {span : Span} (last : statementOf trace = some (.ret span)) :
    Ending script told trace .returned
  | complete (through : Through script.statements none trace) : Ending script told trace .returned
  /-- The run has been told to end so. -/
  | told {why : Exit} (holds : told why) : Ending script told trace why
  | failed {e : ScriptError} (other : e.fault.code ≠ "E404") : Ending script told trace (.failed e)
  | exceeded {e : ScriptError} {m : Event} {earlier : List Event} {number : Nat}
    (last : trace = m :: earlier) (deed : m.deed = .excess number) :
    Ending script told trace (.failed e)
  | crashed {d : Defect} : Ending script told trace (.crashed d)

/-- A run with a trace has ended, with so many frames left. -/
structure Ended (script : Block) (base limit : Nat) (told : Exit → Prop) (depth : Nat) (why : Exit)
    (w : World (η × List Event)) : Prop where
  depth : w.context.scopes.depth = depth
  orderly : Orderly script base limit w.host.2
  ending : (∃ reason, why = .aborted reason ∧ Halted w.host.2 reason) ∨
    GoesOn w.host.2 ∧ Ending script told w.host.2 why

/-- A run with a trace waits for the reply to the question of its last call. -/
structure Suspended (script : Block) (base limit : Nat) (w : World (η × List Event)) : Prop where
  orderly : Orderly script base limit w.host.2
  atCall : ∃ m earlier c, w.host.2 = m :: earlier ∧ m.deed = .call c ∧
    m.scopes = w.context.scopes

/-- The contract of runs with a trace. A waiting run goes on as it was, unless it has been cancelled
meanwhile, and is told to end only in some ways. -/
def chronicle (η : Type) (script : Block) (base limit : Nat) (told : Exit → Prop) (depth : Nat) :
    Contract (World (η × List Event)) where
  waits _ w := Suspended script base limit w
  resumes w r t := t.context = w.context ∧ t.host = w.host ∧
    (t.cancelled = none → w.cancelled = none) ∧ (∀ why, r = .leave why → told why) ∧
    (r = .reply .abort → told (.aborted cancelledByUser))
  exits why w := Ended script base limit told depth why w

section

variable {script : Block} {base limit : Nat} {told : Exit → Prop} {counts : Nat → Nat}
  {blocks : List Block} {s : Stmt} {calls : List Call} {number : Nat} {w : World (η × List Event)}

theorem Kept.ended (kept : Kept script base limit counts blocks w) {why : Exit}
    (ending : Ending script told w.host.2 why) :
    Ended script base limit told (base + blocks.length) why w :=
  ⟨kept.depth, kept.orderly, .inr ⟨kept.goesOn, ending⟩⟩

end

namespace Traced

section

variable {script : Block} {base limit : Nat} {told : Exit → Prop} {counts : Nat → Nat}
  {blocks : List Block} {s : Stmt} {calls rest : List Call} {number : Nat} {α β : Type}
  {w : World (η × List Event)}

/-- A part of a run that makes the given calls of the statement in progress, at most, in order, and
keeps the contract. -/
def Consumes (script : Block) (base limit : Nat) (told : Exit → Prop) (blocks : List Block)
    (calls : List Call) (m : Step η α) : Prop :=
  ∀ counts s rest number, Action.Meets (chronicle η script base limit told (base + blocks.length))
    (During script base limit counts blocks s (calls ++ rest) number) m
    fun _ => During script base limit counts blocks s rest number

theorem Consumes.pure {a : α} :
    Consumes script base limit told blocks [] (Pure.pure a : Step η α) :=
  fun _ _ _ _ => Action.Meets.pure fun _ during => during

theorem Consumes.bind {calls calls' : List Call} {m : Step η α} {next : α → Step η β}
    (first : Consumes script base limit told blocks calls m)
    (second : ∀ a, Consumes script base limit told blocks calls' (next a)) :
    Consumes script base limit told blocks (calls ++ calls') (m >>= next) := by
  intro counts s rest number
  rw [List.append_assoc]
  exact (first counts s _ number).bind fun a => second a counts s rest number

/-- A step that makes no calls, behind one that may. -/
theorem Consumes.andThen {m : Step η α} {next : α → Step η β}
    (first : Consumes script base limit told blocks calls m)
    (second : ∀ a, Consumes script base limit told blocks [] (next a)) :
    Consumes script base limit told blocks calls (m >>= next) := by
  have both := first.bind second
  rwa [List.append_nil] at both

theorem Consumes.all {m : Step η α} (consumes : Consumes script base limit told blocks calls m) :
    Action.Meets (chronicle η script base limit told (base + blocks.length))
      (During script base limit counts blocks s calls number) m
      fun _ => During script base limit counts blocks s [] number := by
  have all := consumes counts s [] number
  rwa [List.append_nil] at all

theorem Consumes.idle {m : Step η α} (consumes : Consumes script base limit told blocks [] m) :
    Consumes script base limit told blocks calls m :=
  fun counts s rest number w during => consumes counts s rest number w during.idle

theorem Consumes.leave {why : Exit} (ending : ∀ trace, Ending script told trace why) :
    Consumes script base limit told blocks [] (Action.leave why : Step η α) :=
  fun _ _ _ _ => Action.Meets.leave fun _ during => during.toKept.ended (ending _)

theorem Consumes.fail {fault : Fault} {span : Span} (other : fault.code ≠ "E404") :
    Consumes script base limit told blocks [] (Action.fail fault span : Step η α) :=
  .leave fun _ => .failed other

theorem readVariable_consumes {span : Span} {name : String} :
    Consumes script base limit told blocks []
      (Run.readVariable span name : Step η Value) := by
  intro counts s rest number w during
  unfold Run.readVariable
  split
  · exact during
  · refine Consumes.fail ?_ counts s rest number w during
    simp [Fault.code]

theorem checkResult_consumes {f : FunctionSpec} {span : Span} {result : Option Value} :
    Consumes script base limit told blocks []
      (Run.checkResult f span result : Step η Value) := by
  unfold Run.checkResult
  split
  · split
    · exact .pure
    · exact .fail (by simp [Fault.code])
  · exact .fail (by simp [Fault.code])

theorem handleFailure_consumes {f : FunctionSpec} {span : Span} {message : String} :
    Consumes script base limit told blocks []
      (Run.handleFailure f span message : Step η Value) := by
  intro counts s rest number w during
  unfold Run.handleFailure
  split
  · refine Consumes.fail ?_ counts s rest number _ (during.of_eq rfl id rfl)
    simp [Fault.code]
  · exact during.of_eq rfl id rfl

/-- At a boundary the run ends if it has been cancelled, and goes on otherwise. -/
theorem pass_meets (kept : Kept script base limit counts blocks w) {b : Boundary}
    (belongs : (w.event blocks (.boundary b)).Belongs script limit w.host.2)
    {post : Unit → World (η × List Event) → Prop}
    (goesOn : Kept script base limit counts blocks (w.marked blocks (.boundary b)) →
      w.cancelled = none → post () (w.marked blocks (.boundary b))) :
    ((pass blocks b : Step η Unit) w).Meets
      (chronicle η script base limit told (base + blocks.length)) post := by
  show ((Run.checkCancelled : Step η Unit) (w.marked blocks (.boundary b))).Meets _ _
  unfold Run.checkCancelled
  split
  · rename_i reason set
    have follows := kept.follows kept.encloses kept.depth (fun _ => ⟨b, rfl⟩) belongs
    exact ⟨kept.depth, ⟨follows, kept.orderly⟩, .inl ⟨reason, rfl, _, _, rfl, ⟨b, rfl⟩, set⟩⟩
  · rename_i open'
    exact goesOn (kept.marked (fun _ => ⟨b, rfl⟩) belongs (fun _ _ => open') nofun) open'

/-- The answer to a question is a boundary within the statement in progress. -/
theorem answer_consumes {p : Prompt} :
    Consumes script base limit told blocks [] (pass blocks (.answer p) : Step η Unit) := by
  intro counts s rest number w during
  refine pass_meets during.toKept ?_ fun kept _ => ?_
  · exact trivial
  · exact ⟨kept, during.member, during.statement, during.calls, during.iterations,
      not_entered_of_other nofun⟩

theorem takeReply_meets {f : FunctionSpec} {span : Span} {p : Prompt} {r : Resumption}
    (during : During script base limit counts blocks s rest number w)
    (leaves : ∀ why, r = .leave why → told why)
    (aborts : r = .reply .abort → told (.aborted cancelledByUser)) :
    ((takeReply blocks f span p r : Step η Value) w).Meets
      (chronicle η script base limit told (base + blocks.length))
      fun _ => During script base limit counts blocks s rest number := by
  cases r with
  | leave why => exact during.toKept.ended (.told (leaves why rfl))
  | reply reply =>
    cases reply with
    | abort => exact during.toKept.ended (.told (aborts rfl))
    | answer data =>
      have consumes : Consumes script base limit told blocks []
          (takeReply blocks f span p (.reply (.answer data)) : Step η Value) := by
        refine answer_consumes.bind fun _ => ?_
        split
        · exact checkResult_consumes
        · exact .fail (by simp [Fault.code])
      exact consumes counts s rest number w during

/-- What a call does with what has come of its host function, behind the mark of the call. -/
theorem receive_meets {c : Call} {f : FunctionSpec} {span : Span} {outcome : Outcome}
    (during : During script base limit counts blocks s rest number w)
    (atCall : ∃ m earlier, w.host.2 = m :: earlier ∧ m.deed = .call c ∧
      m.scopes = w.context.scopes) :
    ((receive blocks f span outcome : Step η Value) w).Meets
      (chronicle η script base limit told (base + blocks.length))
      fun _ => During script base limit counts blocks s rest number := by
  cases outcome with
  | value data => exact checkResult_consumes counts s rest number w during
  | failure message => exact handleFailure_consumes counts s rest number w during
  | crash d => exact during.toKept.ended .crashed
  | question p =>
    obtain ⟨m, earlier, trace, call, scopes⟩ := atCall
    refine ⟨⟨during.orderly, m, earlier, c, trace, call, scopes⟩, fun r t resumes => ?_⟩
    obtain ⟨context, host, lasts, leaves, aborts⟩ := resumes
    have during' : During script base limit counts blocks s rest number t :=
      during.of_eq (congrArg Prod.snd host) lasts (congrArg Context.scopes context)
    exact takeReply_meets during' leaves aborts

theorem callWith_consumes {setting : Setting η} {c : Call} {f : FunctionSpec} {args : List Value}
    {kwargs : List (String × Value)} :
    Consumes script base limit told blocks [c]
      (callWith setting.traced blocks c f args kwargs) := by
  unfold callWith
  split
  · rename_i arguments bound
    intro counts s rest number w during
    show ((invoke setting.traced blocks f c.span arguments) (w.marked blocks (.call c))).Meets _ _
    rw [invoke_apply]
    have scopes := (w.marked blocks (.call c)).call_scopes setting.traced.host f arguments c.span
    exact receive_meets (During.of_eq during.called rfl World.call_cancelled scopes)
      ⟨_, _, rfl, rfl, scopes.symm⟩
  · rename_i fault refused
    refine .idle (.fail ?_)
    rcases FunctionSpec.bind_code refused with code | code <;> simp [code]

theorem consumes_tracing (setting : Setting η) (script : Block) (base limit : Nat)
    (told : Exit → Prop) (blocks : List Block) :
    Run.ExpressionTracing setting blocks fun calls _ m =>
      Consumes script base limit told blocks calls m where
  pure := .pure
  bind := .bind
  idle := .idle
  fail := .fail
  overflow := .leave fun _ => .crashed
  readVariable := readVariable_consumes
  call _ := callWith_consumes

end

end Traced

end InstallScript
