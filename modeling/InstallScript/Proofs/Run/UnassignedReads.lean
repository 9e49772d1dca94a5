import InstallScript.Proofs.Run.AgreeingSessions
import InstallScript.Proofs.Run.Nesting

/-!
Reads of variables that are never assigned. A run that starts afresh binds only names that its
script assigns to, at whatever event and in whatever frame (`Session.traced_obeys`). So a read that
the check refuses for that reason could never give a value: a run that comes to it fails there, and
a run that does not come to it would be the same with anything else in its place
(`unassigned_reads_fail`).
-/

namespace InstallScript

variable {η : Type} {a : Accord}

/-! ## The names that are bound -/

/-- All names that have a value, as they are kept: the global ones and those of every frame. -/
def Scopes.boundNames (s : Scopes) : List String :=
  s.globals.map Prod.fst ++ s.frames.flatMap fun f => f.bindings.map Prod.fst

theorem Scopes.obeys_iff {s : Scopes} : s.Obeys a ↔
    s.caseSensitive = a.caseSensitive ∧ ∀ key ∈ s.boundNames, a.bindable key := by
  unfold boundNames
  rw [List.forall_mem_append]
  constructor
  · rintro ⟨rule, globals, frames⟩
    refine ⟨rule, globals, fun key member => ?_⟩
    obtain ⟨f, inStack, bound⟩ := List.mem_flatMap.1 member
    exact frames f inStack key bound
  · rintro ⟨rule, globals, frames⟩
    exact ⟨rule, globals, fun f inStack key bound =>
      frames key (List.mem_flatMap.2 ⟨f, inStack, bound⟩)⟩

/-- The variables are such as they may be, and have been so at every event. -/
structure World.HasObeyed (a : Accord) (w : World (η × List Event)) : Prop where
  now : w.context.scopes.Obeys a
  earlier : ∀ m ∈ w.host.2, m.scopes.Obeys a

theorem World.HasObeyed.of_eq {w v : World (η × List Event)} (obeyed : w.HasObeyed a)
    (scopes : v.context.scopes = w.context.scopes) (trace : v.host.2 = w.host.2) :
    v.HasObeyed a := by
  refine ⟨?_, ?_⟩
  · rw [scopes]
    exact obeyed.now
  · rw [trace]
    exact obeyed.earlier

theorem World.HasObeyed.marked {w : World (η × List Event)} (obeyed : w.HasObeyed a)
    (blocks : List Block) (deed : Deed) : (w.marked blocks deed).HasObeyed a :=
  ⟨obeyed.now, List.forall_mem_cons.2 ⟨obeyed.now, obeyed.earlier⟩⟩

namespace Traced

/-- Variables that may be bound are bound, and nothing else, step by step. -/
theorem obeying_evolving (setting : Setting η) (a : Accord) :
    Evolving setting (fun _ name => a.bindable (nameKey a.caseSensitive name))
      fun w v : World (η × List Event) => w.HasObeyed a → v.HasObeyed a where
  trans first second obeyed := second (first obeyed)
  rests rests obeyed := obeyed.of_eq rests.scopes (congrArg Prod.snd rests.host)
  mark _ obeyed := obeyed.marked _ _
  call _ obeyed := (obeyed.marked _ _).of_eq (World.call_scopes _ _ _ _ _) rfl
  bind target obeyed := ⟨obeyed.now.bind target _, obeyed.earlier⟩
  update _ updates obeyed := ⟨obeyed.now.update updates, obeyed.earlier⟩
  push obeyed := ⟨obeyed.now.push _, obeyed.earlier⟩
  pop obeyed := ⟨obeyed.now.pop, obeyed.earlier⟩

end Traced

/-- The names that a script assigns to may be bound. -/
def Block.AssignsWithin (script : Block) (a : Accord) : Prop :=
  ∀ node ∈ script.walk, ∀ name, Checker.assignedName? node = some name →
    a.bindable (nameKey a.caseSensitive name)

/-- In a run that starts afresh no other names are ever bound. -/
theorem Session.traced_obeys {script : Block} (within : script.AssignsWithin a)
    (setting : Setting η) {world : World η} (start : world.context.scopes.Obeys a)
    {finisher : Finisher η} (modest : finisher.Modest) (moves : List Move) :
    (moves.foldl Session.move (ofTraced setting script world finisher)).world.HasObeyed a := by
  have targets : Run.Changes (fun _ name => a.bindable (nameKey a.caseSensitive name))
      (walkStmts script.statements) := by
    obtain ⟨span, statements⟩ := script
    intro node member mode name written
    refine within node (List.mem_cons_of_mem _ member) name ?_
    unfold Run.written? at written
    split at written <;> cases written <;> rfl
  have evolves : (finisher.withMemory : Finisher (η × List Event)).Evolves
      fun w v => w.HasObeyed a → v.HasObeyed a :=
    { refl := fun _ obeyed => obeyed
      trans := fun first second obeyed => second (first obeyed)
      note := fun _ _ _ _ obeyed => obeyed.of_eq rfl rfl
      cancel := fun _ _ obeyed => obeyed.of_eq rfl rfl
      effect := fun result w obeyed =>
        obeyed.of_eq (modest.withMemory.scopes result w) (finisher.withMemory_memory result w) }
  have phase : (ofTraced setting script world finisher).phase.Evolves
      fun w v => w.HasObeyed a → v.HasObeyed a :=
    (Traced.obeying_evolving setting a).tracing.executeAll [] script.statements targets
  exact (moves_evolve evolves phase moves).1 ⟨start, List.forall_mem_nil _⟩

/-! ## Other scripts -/

/-- Something else may stand for one read of a variable. -/
def Kinship.filling (span : Span) (name : String) : Kinship :=
  { Kinship.same with
    read := fun span' name' e => e = .var span' name' ∨ span' = span ∧ name' = name }

/-- What is assigned to may be bound, besides. -/
def Kinship.binding (k : Kinship) (a : Accord) : Kinship :=
  { k with
    target := fun name name' => k.target name name' ∧
      a.bindable (nameKey a.caseSensitive name) }

theorem Kinship.allows_binding (k : Kinship) {node : Node}
    (bindable : ∀ name, Checker.assignedName? node = some name →
      a.bindable (nameKey a.caseSensitive name)) : k.Allows (k.binding a) node := by
  cases node with
  | expr e =>
    cases e with
    | literal => exact trivial
    | var | call | binary | unary => exact fun _ => id
  | stmt s =>
    cases s with
    | assign | forLoop => exact ⟨fun _ => id, fun _ same => ⟨same, bindable _ rfl⟩⟩
    | whileLoop => exact fun _ => id
    | call | choice | block | ret | comment => exact trivial
  | keyword | branch | block => exact trivial

/-! ## Runs that start afresh -/

namespace Checker

variable {checker : Checker} {script : Block}

/-- What runs of a script agree in that start afresh: the names are compared like those of a check,
and only names are bound that the script assigns to. -/
def accord (checker : Checker) (script : Block) (replaced : Span → String → Prop) : Accord where
  caseSensitive := checker.caseSensitive
  bindable key := key ∈ checker.assignedKeys script.walk
  replaced := replaced
  exact := True

theorem assigns_within (replaced : Span → String → Prop) :
    script.AssignsWithin (checker.accord script replaced) := by
  intro node member name assigned
  exact List.mem_map_of_mem (List.mem_filterMap.2 ⟨node, member, assigned⟩)

theorem fresh_obeys {replaced : Span → String → Prop} {s : Scopes}
    (fresh : s = ⟨checker.caseSensitive, [], []⟩) : s.Obeys (checker.accord script replaced) := by
  rw [fresh]
  exact ⟨rfl, List.forall_mem_nil _, List.forall_mem_nil _⟩

/-- The one error that has its code: it is about a read of a variable that is never assigned. -/
theorem neverAssigned_of_code {assigned : List String} {node : Node} {error : ScriptError}
    (member : error ∈ checker.nodeErrors assigned node) (code : error.fault.code = "E204") :
    ∃ span name, node = .expr (.var span name) ∧
      nameKey checker.caseSensitive name ∉ assigned ∧
      error = checker.errorAt (.neverAssigned name) span := by
  unfold nodeErrors at member
  split at member
  · have calls := callErrors_code error member
    rw [code] at calls
    exact absurd calls (by decide)
  · split at member
    · cases member
    · rename_i span name never
      rw [List.contains_iff_mem] at never
      exact ⟨span, name, rfl, never, List.mem_singleton.1 member⟩
  · cases member

/-- A read that is never assigned is none of the variables that may be bound. -/
theorem filling_keeps {span : Span} {name : String}
    (never : nameKey checker.caseSensitive name ∉ checker.assignedKeys script.walk) :
    ((Kinship.filling span name).binding (checker.accord script fun span' name' =>
      span' = span ∧ name' = name)).Keeps (checker.accord script fun span' name' =>
        span' = span ∧ name' = name) where
  span same _ := same
  target same := ⟨same.2, congrArg _ same.1, fun _ => same.1⟩
  read := by
    rintro span' name' e (rfl | ⟨rfl, rfl⟩)
    · exact .inl ⟨span', name', rfl, rfl, fun _ => ⟨rfl, rfl⟩⟩
    · exact .inr ⟨⟨rfl, rfl⟩, never⟩
  call := by
    rintro c _ rfl
    exact ⟨rfl, rfl, fun _ => ⟨rfl, rfl, rfl⟩⟩

/-- Where only names are bound that the script assigns to, another one has no value. -/
theorem evaluate_never {span : Span} {name : String} {replaced : Span → String → Prop}
    (never : nameKey checker.caseSensitive name ∉ checker.assignedKeys script.walk)
    (setting : Setting η) {w : World η}
    (obeys : w.context.scopes.Obeys (checker.accord script replaced)) :
    Run.evaluate setting (.var span name) w = .exit (.unbound span name) w := by
  show Run.readVariable span name w = _
  unfold Run.readVariable
  rw [obeys.get?_eq_none never]
  rfl

end Checker

/-- A run has failed at a read of a variable that has no value. -/
def Session.FailedAt (span : Span) (name : String) (s : Session η) : Prop :=
  ∃ result d, s.phase = .finished result ∧ result.status = .failed ∧ result.error = some d ∧
    d.code = "E401" ∧ d.message = (Fault.undefinedVariable name).message ∧ d.span = some span

theorem Session.Unbound.failedAt {checker : Checker} {script : Block} {span : Span} {name : String}
    {s : Session η} (unbound : s.Unbound (checker.accord script fun span' name' =>
      span' = span ∧ name' = name)) : s.FailedAt span name := by
  obtain ⟨_, _, result, d, ⟨rfl, rfl⟩, error⟩ := unbound.error
  exact ⟨result, d, error⟩

/-- The variables are such as a run of the script makes them that starts afresh: their names are
those that it assigns to, in the form in which the check compares names. -/
def Scopes.Assigned (checker : Checker) (script : Block) (s : Scopes) : Prop :=
  s.caseSensitive = checker.caseSensitive ∧ ∀ key ∈ s.boundNames, ∃ node ∈ script.walk,
    ∃ name, Checker.assignedName? node = some name ∧ key = nameKey checker.caseSensitive name

theorem Scopes.assigned_iff {checker : Checker} {script : Block}
    {replaced : Span → String → Prop} {s : Scopes} :
    s.Assigned checker script ↔ s.Obeys (checker.accord script replaced) := by
  have key (k : String) : k ∈ checker.assignedKeys script.walk ↔ ∃ node ∈ script.walk,
      ∃ name, Checker.assignedName? node = some name ∧ k = nameKey checker.caseSensitive name := by
    unfold Checker.assignedKeys
    rw [List.mem_map]
    constructor
    · rintro ⟨name, member, rfl⟩
      obtain ⟨node, inScript, assigned⟩ := List.mem_filterMap.1 member
      exact ⟨node, inScript, name, assigned, rfl⟩
    · rintro ⟨node, inScript, name, assigned, rfl⟩
      exact ⟨name, List.mem_filterMap.2 ⟨node, inScript, assigned⟩, rfl⟩
  rw [obeys_iff]
  exact and_congr_right' (forall₂_congr fun k _ => (key k).symm)

/-- The check refuses no read that could work. A run that starts afresh binds only names that its
script assigns to, whenever one looks. A read that is refused because its variable is never assigned
has no value then; and over any history the run is the same with anything else in the place of this
read, or comes to it and fails there. -/
theorem unassigned_reads_fail (checker : Checker) (script : Block) (setting : Setting η)
    {world : World η} (fresh : world.context.scopes = ⟨checker.caseSensitive, [], []⟩)
    {finisher : Finisher η} (modest : finisher.Modest) (moves : List Session.Move) :
    let run (script : Block) := Session.ofScript setting script world finisher
    let after (script : Block) (moves : List Session.Move) := moves.foldl Session.move (run script)
    let prompts (script : Block) (moves : List Session.Move) :=
      ((run script).reports moves).filterMap Report.prompt?
    let traced := moves.foldl Session.move (Session.ofTraced setting script world finisher)
    (∀ scopes ∈ (after script moves).world.context.scopes :: traced.world.host.2.map (·.scopes),
      scopes.Assigned checker script) ∧
    ∀ maxErrors, ∀ d ∈ (checker.check script maxErrors).diagnostics.toList, d.code = "E204" →
      ∃ span name, .expr (.var span name) ∈ script.walk ∧
        d = (checker.errorAt (.neverAssigned name) span).diagnostic ∧
        (∀ w : World η, w.context.scopes.Assigned checker script →
          Run.evaluate setting (.var span name) w = .exit (.unbound span name) w) ∧
        ∀ script', script.Kin (.filling span name) script' →
          (prompts script moves = prompts script' moves ∧
              (after script moves).world = (after script' moves).world ∧
              (after script moves).result? = (after script' moves).result?) ∨
            (after script moves).FailedAt span name ∧ ∃ before m later,
              moves = before ++ m :: later ∧ prompts script before = prompts script' before ∧
              (after script before).world = (after script' before).world ∧
              ((after script before).move m).FailedAt span name := by
  intro run after prompts traced
  constructor
  · have obeyed : traced.world.HasObeyed (checker.accord script fun _ _ => False) :=
      Session.traced_obeys (Checker.assigns_within _) setting (Checker.fresh_obeys fresh) modest
        moves
    refine List.forall_mem_cons.2 ⟨?_, List.forall_mem_map.2 fun m member => ?_⟩
    · rw [Session.traced_scopes setting script world modest moves]
      exact Scopes.assigned_iff.2 obeyed.now
    · exact Scopes.assigned_iff.2 (obeyed.earlier m member)
  · intro maxErrors d found code
    obtain ⟨node, inScript, error, member, rfl⟩ := Checker.mem_check found
    obtain ⟨span, name, rfl, never, rfl⟩ := Checker.neverAssigned_of_code member code
    refine ⟨span, name, inScript, rfl, fun w assigned => ?_, fun script' kin => ?_⟩
    · have obeys : w.context.scopes.Obeys (checker.accord script fun _ _ => False) :=
        Scopes.assigned_iff.1 assigned
      exact Checker.evaluate_never never setting obeys
    · let a := checker.accord script fun span' name' => span' = span ∧ name' = name
      have within : script.AssignsWithin a := Checker.assigns_within _
      have worlds : world.Agrees a world :=
        ⟨rfl, rfl, rfl, rfl, rfl, rfl, rfl, Checker.fresh_obeys fresh, fun _ => rfl⟩
      have kin' : script.Kin ((Kinship.filling span name).binding a) script' :=
        kin.imp fun node inScript => Kinship.allows_binding _ (within node inScript)
      have agrees := Session.ofScript_agrees (Checker.filling_keeps never) setting kin' worlds
        finisher
      rcases agrees.moves ⟨modest.fair trivial, fun _ => modest⟩ moves with
        ⟨same, later⟩ | ⟨⟨before, m, later, split, same, agree, unbound⟩, ends⟩
      · refine .inl ⟨same, (later.worlds.exactly trivial).symm, ?_⟩
        rcases later.results with ⟨none, none'⟩ | ⟨r, r', some, some', results⟩
        · exact none.trans none'.symm
        · rw [results.exactly trivial] at some'
          exact some.trans some'.symm
      · exact .inr ⟨ends.failedAt, before, m, later, split, same,
          (agree.worlds.exactly trivial).symm, unbound.failedAt⟩

/-- A script that keeps the value of an expression. -/
def keeping (e : Expr) : Block := .mk default [.assign default .bind "found" e]

/-- The check refuses a read of a variable that nothing is assigned to, and the run fails at it. -/
theorem keeping_fails :
    let checker : Checker := { catalog := asker.catalog }
    let world : World Unit := ⟨{}, (), none, #[], #[]⟩
    let script := keeping (.var default "sought")
    world.context.scopes = ⟨checker.caseSensitive, [], []⟩ ∧
      (Finisher.idle : Finisher Unit).Modest ∧
      (checker.check script).diagnostics.toList.map (·.code) = ["E204"] ∧
      (Session.ofScript asker script world).start.2.FailedAt default "sought" := by
  intro checker world script
  have fresh : world.context.scopes = ⟨checker.caseSensitive, [], []⟩ := rfl
  have codes : (checker.check script).diagnostics.toList.map (·.code) = ["E204"] := by
    decide +kernel
  refine ⟨fresh, Finisher.idle_modest, codes, ?_⟩
  let filled := keeping (.literal default (.bool true))
  have statuses : (Session.ofScript asker script world).start.2.result?.map (·.status) ≠
      (Session.ofScript asker filled world).start.2.result?.map (·.status) := by
    decide +kernel
  obtain ⟨d, found, code⟩ : ∃ d ∈ (checker.check script).diagnostics.toList, d.code = "E204" := by
    rw [← List.mem_map, codes]
    exact List.mem_singleton_self _
  obtain ⟨-, refused⟩ := unassigned_reads_fail checker script asker fresh Finisher.idle_modest
    [.start]
  obtain ⟨span, name, inScript, -, -, others⟩ := refused 20 d found code
  have place : span = default ∧ name = "sought" := by
    simpa [script, keeping, Block.walk, walkStmts, Stmt.walk, Expr.walk] using inScript
  obtain ⟨rfl, rfl⟩ := place
  have kin : script.Kin (.filling default "sought") filled :=
    .mk (.cons (.assign rfl rfl (.var (.inr ⟨rfl, rfl⟩))) .nil)
  rcases others _ kin with ⟨-, -, same⟩ | ⟨fails, -⟩
  · exact absurd (congrArg (Option.map (·.status)) same) statuses
  · exact fails

end InstallScript
