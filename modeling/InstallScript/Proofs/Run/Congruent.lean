import InstallScript.Proofs.Run.Parallel
import InstallScript.Proofs.Run.Contract

/-!
Relations between the runs of one tree under two hosts. The tree stands beside itself, so what is
kept by the ways to put steps together and holds of the calls of the tree holds of the whole tree
(`Run.Congruent.executeAll`). What a run keeps by itself is the case of a run related to itself.
-/

namespace InstallScript

/-- The ends that a run may come to by itself, its calls and the defects of operators aside. -/
inductive Exit.Usual : Exit → Prop
  | returned : Exit.Usual .returned
  | aborted (reason : String) : Exit.Usual (.aborted reason)
  | failed {fault : Fault} {span : Span} (aside : fault.AsideFromCalls) :
    Exit.Usual (.failed ⟨fault, some span, none⟩)

namespace Run

/-- All calls among the nodes are in the scope. -/
def Within (scope : Call → Prop) (nodes : List Node) : Prop :=
  ∀ c, Node.expr (.call c) ∈ nodes → scope c

/-- A relation between the steps of two runs of the calls in a scope. It tells what values a step
may give, is kept by putting steps together, and holds of the same single step in both runs; of a
call it holds if the call's arguments have values that they may have. -/
structure Congruent {η η' : Type} (setting : Setting η) (host : Host η') (scope : Call → Prop)
    (rel : ∀ {α : Type}, (α → Prop) → Step η α → Step η' α → Prop) : Prop where
  pure : ∀ {α : Type} {P : α → Prop} {a : α}, P a → rel P (Pure.pure a) (Pure.pure a)
  bind : ∀ {α β : Type} {P : α → Prop} {Q : β → Prop} {m : Step η α} {m' : Step η' α}
    {next : α → Step η β} {next' : α → Step η' β}, rel P m m' →
      (∀ a, P a → rel Q (next a) (next' a)) → rel Q (m >>= next) (m' >>= next')
  leave : ∀ {α : Type} {P : α → Prop} {why : Exit}, why.Usual →
    rel P (Action.leave why) (Action.leave why)
  overflow : ∀ {α : Type} {P : α → Prop} {operator : BinaryOperator} {a b : Value}
    {cause : Overflow}, Value.apply operator a b = .error (.overflow cause) →
      rel P (Action.leave (.crashed (.overflow cause))) (Action.leave (.crashed (.overflow cause)))
  checkCancelled : rel (fun _ => True) checkCancelled checkCancelled
  readVariable : ∀ {span : Span} {name : String},
    rel (fun _ => True) (readVariable span name) (readVariable span name)
  writeVariable : ∀ {span : Span} {mode : AssignMode} {name : String} {value : Value},
    rel (fun _ => True) (writeVariable span mode name value) (writeVariable span mode name value)
  inFrame : ∀ {α : Type} {P : α → Prop} {name : String} {m : Step η α} {m' : Step η' α},
    rel P m m' → rel P (inFrame name m) (inFrame name m')
  unknown : ∀ {c : Call}, scope c → setting.catalog.get? c.name = none →
    rel (α := Value) (fun _ => True) (Action.fail (.unknownFunction c.name) c.span)
      (Action.fail (.unknownFunction c.name) c.span)
  call : ∀ {c : Call} {f : FunctionSpec} {args : List Value} {kwargs : List (String × Value)},
    scope c → setting.catalog.get? c.name = some f → c.MayHave args kwargs →
      rel (fun _ => True) (callWith setting f c.span args kwargs)
        (callWith (setting.withHost host) f c.span args kwargs)

/-! ## Calls -/

/-- What a call does with what has come of its host function. -/
def receive {η : Type} (f : FunctionSpec) (span : Span) : Outcome → Step η Value
  | .value data => checkResult f span (Value.ofDatum? data)
  | .failure message => handleFailure f span message
  | .crash defect => Action.leave (.crashed defect)
  | .question p => Action.ask p >>= takeReply f span p

theorem invoke_apply {η : Type} (setting : Setting η) (f : FunctionSpec) (span : Span)
    (arguments : Arguments) (w : World η) :
    invoke setting f span arguments w =
      receive f span (w.call setting.host f arguments span).1
        (w.call setting.host f arguments span).2 := by
  unfold invoke
  split <;> rename_i called <;> rw [called] <;> rfl

/-- Nothing differs, and the calls are in a scope. -/
def withinScope (scope : Call → Prop) : Kinship :=
  { Kinship.same with call := fun c c' => c = c' ∧ scope c }

theorem Within.stmts_kin {scope : Call → Prop} {ss : List Stmt}
    (within : Within scope (walkStmts ss)) : StmtsKin (withinScope scope) ss ss := by
  refine (stmts_kin_same ss).imp fun node member => ?_
  cases node with
  | expr e =>
    cases e with
    | call c => exact fun _ same => ⟨same, within c member⟩
    | literal => trivial
    | _ => exact fun _ same => same
  | stmt s =>
    cases s with
    | assign | forLoop => exact ⟨fun _ same => same, fun _ same => same⟩
    | whileLoop => exact fun _ same => same
    | _ => trivial
  | _ => trivial

namespace Congruent

variable {η η' : Type} {setting : Setting η} {host : Host η'} {scope : Call → Prop}
  {rel : ∀ {α : Type}, (α → Prop) → Step η α → Step η' α → Prop}

theorem parallel (sim : Congruent setting host scope rel) :
    Parallel (withinScope scope) setting host rel where
  pure := sim.pure
  bind := sim.bind
  returned := sim.leave .returned
  fail := by
    rintro _ _ _ _ _ rfl own
    exact sim.leave (.failed own.aside)
  overflow := sim.overflow
  checkCancelled := sim.checkCancelled
  readVariable := by
    rintro _ _ _ rfl
    exact sim.readVariable
  writeVariable := by
    rintro _ _ _ _ _ _ rfl rfl
    exact sim.writeVariable
  inFrame := sim.inFrame
  lookup := by
    rintro _ _ ⟨rfl, -⟩
    rfl
  unknown := by
    rintro _ _ ⟨rfl, inScope⟩ missing
    exact sim.unknown inScope missing
  call := by
    rintro _ _ _ _ _ ⟨rfl, inScope⟩ found _ may
    exact sim.call inScope found may

/-- The relation holds of whole trees. -/
theorem executeAll (sim : Congruent setting host scope rel) (ss : List Stmt)
    (within : Within scope (walkStmts ss)) :
    rel (fun _ => True) (Run.executeAll setting ss)
      (Run.executeAll (setting.withHost host) ss) :=
  sim.parallel.executeAll within.stmts_kin

end Congruent

end Run

end InstallScript
