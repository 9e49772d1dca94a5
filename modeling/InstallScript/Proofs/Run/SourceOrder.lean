import InstallScript.Proofs.Run.ChronicleOfRuns
import InstallScript.Proofs.Run.Growth
import InstallScript.Proofs.Syntax.CallPlaces

/-!
The order of the calls of a run. A script without loops makes each of its calls at most once, and in
the order in which they end in the text (`calls_in_source_order`): a run goes through the calls of
the script from front to back, and leaves out some. This is kept by each step of a run, by answers
and by everything that may end it (`Traced.MakesAtMost`). The right operand of `and` and `or` is
left out exactly if the left one decides (`Run.evaluate_binary`).
-/

namespace InstallScript

variable {η : Type}

/-! ## Calls that are left -/

/-- The calls that a run has made and those that it may still make are calls of a list, in its
order. -/
def Ahead (all rest : List Call) (w : World (η × List Event)) : Prop :=
  (callsIn w.host.2 ++ rest).Sublist all

/-- The contract of runs that make calls of a list in its order. A waiting run goes on with the same
trace. -/
def inOrderOf (η : Type) (all : List Call) : Contract (World (η × List Event)) where
  waits _ w := Ahead all [] w
  resumes w _ t := t.host.2 = w.host.2
  exits _ w := Ahead all [] w

theorem Ahead.of_eq {all rest : List Call} {w v : World (η × List Event)}
    (ahead : Ahead all rest w) (trace : v.host.2 = w.host.2) : Ahead all rest v := by
  rwa [Ahead, trace]

/-- Calls may be left out. -/
theorem Ahead.fewer {all rest rest' : List Call} {w : World (η × List Event)}
    (ahead : Ahead all rest w) (fewer : rest'.Sublist rest) : Ahead all rest' w :=
  (List.Sublist.append_left fewer _).trans ahead

theorem Ahead.none {all rest : List Call} {w : World (η × List Event)}
    (ahead : Ahead all rest w) : Ahead all [] w :=
  ahead.fewer (List.nil_sublist rest)

/-- The next call is made. -/
theorem Ahead.called {all rest : List Call} {w : World (η × List Event)} {blocks : List Block}
    {c : Call} (ahead : Ahead all (c :: rest) w) : Ahead all rest (w.marked blocks (.call c)) := by
  have calls : callsIn (w.marked blocks (.call c)).host.2 = callsIn w.host.2 ++ [c] := rfl
  rwa [Ahead, calls, List.append_assoc]

theorem Ahead.marked {all rest : List Call} {w : World (η × List Event)} {blocks : List Block}
    {deed : Deed} (other : ∀ c, deed ≠ .call c) (ahead : Ahead all rest w) :
    Ahead all rest (w.marked blocks deed) := by
  have calls : callsIn (w.marked blocks deed).host.2 = callsIn w.host.2 := by
    cases deed with
    | call c => exact absurd rfl (other c)
    | _ => rfl
  rwa [Ahead, calls]

namespace Traced

variable {α β : Type} {all calls calls' : List Call} {blocks : List Block}

/-- A part of a run that makes at most the given calls, each at most once and in this order. -/
def MakesAtMost (all calls : List Call) (m : Step η α) : Prop :=
  ∀ rest, Action.Meets (inOrderOf η all) (Ahead all (calls ++ rest)) m fun _ => Ahead all rest

namespace MakesAtMost

theorem pure {a : α} : MakesAtMost all [] (Pure.pure a : Step η α) :=
  fun _ => Action.Meets.pure fun _ ahead => ahead

theorem bind {m : Step η α} {next : α → Step η β} (first : MakesAtMost all calls m)
    (second : ∀ a, MakesAtMost all calls' (next a)) :
    MakesAtMost all (calls ++ calls') (m >>= next) := by
  intro rest
  rw [List.append_assoc]
  exact (first _).bind fun a => second a rest

/-- A step that makes no calls, behind one that may. -/
theorem andThen {m : Step η α} {next : α → Step η β} (first : MakesAtMost all calls m)
    (second : ∀ a, MakesAtMost all [] (next a)) : MakesAtMost all calls (m >>= next) := by
  have both := first.bind second
  rwa [List.append_nil] at both

/-- More calls may be allowed. -/
theorem mono {m : Step η α} (makes : MakesAtMost all calls m) (fewer : calls.Sublist calls') :
    MakesAtMost all calls' m :=
  fun rest w ahead => makes rest w (ahead.fewer (List.Sublist.append_right fewer rest))

theorem leave {why : Exit} : MakesAtMost all [] (Action.leave why : Step η α) :=
  fun _ => Action.Meets.leave fun _ ahead => ahead.none

theorem of_rests {m : Step η α} (quiet : ∀ w, (m w).Rests w) : MakesAtMost all [] m := by
  intro rest w ahead
  exact (quiet w).meets (fun _ _ same => ahead.none.of_eq (congrArg Prod.snd same.host))
    fun _ _ same => Ahead.of_eq ahead (congrArg Prod.snd same.host)

theorem mark {deed : Deed} (other : ∀ c, deed ≠ .call c) :
    MakesAtMost all [] (mark blocks deed : Step η Unit) :=
  fun _ _ ahead => Ahead.marked other ahead

theorem pass {b : Boundary} : MakesAtMost all [] (pass blocks b : Step η Unit) := by
  have marks : MakesAtMost all [] (Traced.mark blocks (.boundary b) : Step η Unit) := mark nofun
  exact marks.bind fun _ => of_rests Run.checkCancelled_rests

theorem writeVariable {span : Span} {mode : AssignMode} {name : String} {value : Value} :
    MakesAtMost all [] (Run.writeVariable span mode name value : Step η Unit) := by
  intro rest w ahead
  unfold Run.writeVariable
  split
  · exact Ahead.of_eq ahead rfl
  · split
    · exact Ahead.of_eq ahead rfl
    · exact leave rest w ahead

theorem inFrame {name : String} {m : Step η α} (makes : MakesAtMost all calls m) :
    MakesAtMost all calls (Run.inFrame name m) :=
  fun rest => Action.Meets.within
    (fun _ (ahead : Ahead all (calls ++ rest) _) => ahead.of_eq rfl) (makes rest)
    (fun _ _ ahead => ahead.of_eq rfl) fun _ _ ahead => ahead.of_eq rfl

theorem takeReply {f : FunctionSpec} {span : Span} {p : Prompt} {r : Resumption} :
    MakesAtMost all [] (takeReply blocks f span p r : Step η Value) := by
  cases r with
  | leave why => exact leave
  | reply reply =>
    cases reply with
    | abort => exact leave
    | answer data =>
      refine pass.bind fun _ => ?_
      split
      · exact of_rests Run.checkResult_rests
      · exact leave

/-- What a call does with what has come of its host function makes no further calls. -/
theorem receive {f : FunctionSpec} {span : Span} {outcome : Outcome} :
    MakesAtMost all [] (receive blocks f span outcome : Step η Value) := by
  cases outcome with
  | value data => exact of_rests Run.checkResult_rests
  | failure message => exact of_rests Run.handleFailure_rests
  | crash d => exact leave
  | question p =>
    intro rest w ahead
    exact ⟨ahead.none, fun r t trace => takeReply rest t (Ahead.of_eq ahead trace)⟩

theorem callWith {setting : Setting η} {c : Call} {f : FunctionSpec} {args : List Value}
    {kwargs : List (String × Value)} :
    MakesAtMost all [c] (callWith setting.traced blocks c f args kwargs) := by
  unfold Traced.callWith
  split
  · rename_i arguments bound
    intro rest w ahead
    show (invoke setting.traced blocks f c.span arguments (w.marked blocks (.call c))).Meets _ _
    rw [invoke_apply]
    exact receive rest _ (ahead.called.of_eq rfl)
  · exact leave.mono (List.nil_sublist _)

theorem expressions (setting : Setting η) (all : List Call) (blocks : List Block) :
    Run.ExpressionTracing setting blocks fun calls _ m => MakesAtMost all calls m where
  pure := pure
  bind := bind
  idle makes := makes.mono (List.nil_sublist _)
  fail _ := leave
  overflow := leave
  readVariable := of_rests Run.readVariable_rests
  call _ := callWith

end MakesAtMost

end Traced

/-! ## Scripts without loops -/

/-- A loop. -/
def Node.isLoop : Node → Bool
  | .stmt (.whileLoop ..) => true
  | .stmt (.forLoop ..) => true
  | _ => false

/-- There is no loop among some nodes. -/
def Loopless (nodes : List Node) : Prop := ∀ node ∈ nodes, node.isLoop = false

namespace Traced

variable (setting : Setting η) (all : List Call)

open MakesAtMost

mutual

/-- A statement without loops makes each of its calls at most once, from front to back. -/
theorem execute_makes (blocks : List Block) : ∀ s : Stmt, Loopless s.walk →
    MakesAtMost all s.allCalls (execute setting.traced blocks s)
  | .assign _ _ _ value, _ =>
    ((expressions setting all blocks).evaluate value).andThen fun _ => writeVariable
  | .call c, _ => ((expressions setting all blocks).evaluateCall c).andThen fun _ => pure
  | .choice _ branches none, loopless =>
    (executeFirst_makes blocks branches fun node member =>
      loopless node (List.mem_cons_of_mem _ member)).andThen fun _ => pure
  | .choice _ branches (some otherwise), loopless => by
    have inside := List.forall_mem_append.1 (List.forall_mem_cons.1 loopless).2
    refine (executeFirst_makes blocks branches inside.1).bind fun chosen => ?_
    split
    · exact pure.mono (List.nil_sublist _)
    · exact executeBlock_makes blocks "else" otherwise inside.2
  | .whileLoop _ _ _, loopless => nomatch loopless _ List.mem_cons_self
  | .forLoop _ _ _ _ step _, loopless => by
    cases step <;> exact nomatch loopless _ List.mem_cons_self
  | .block body, loopless => executeBlock_makes blocks "block" body loopless
  | .ret _, _ => leave
  | .comment _ _, _ => pure

theorem executeFirst_makes (blocks : List Block) : ∀ bs : List Branch, Loopless (walkBranches bs) →
    MakesAtMost all (branchesCalls bs) (executeFirst setting.traced blocks bs)
  | [], _ => pure
  | .mk _ condition body :: rest, loopless => by
    have inside := List.forall_mem_append.1 (List.forall_mem_cons.1 loopless).2
    have inBranch := List.forall_mem_append.1 inside.1
    refine ((expressions setting all blocks).evaluate condition).bind fun v => ?_
    split
    · have runs := executeBlock_makes blocks "if-branch" body inBranch.2
      exact (runs.andThen fun _ => pure).mono (List.sublist_append_left _ _)
    · exact (executeFirst_makes blocks rest inside.2).mono (List.sublist_append_right _ _)

theorem executeBlock_makes (blocks : List Block) (name : String) : ∀ b : Block, Loopless b.walk →
    MakesAtMost all b.allCalls (executeBlock setting.traced blocks name b)
  | .mk _ statements, loopless =>
    inFrame (executeAll_makes _ statements fun node member =>
      loopless node (List.mem_cons_of_mem _ member))

theorem executeAll_makes (blocks : List Block) : ∀ ss : List Stmt, Loopless (walkStmts ss) →
    MakesAtMost all (stmtsCalls ss) (executeAll setting.traced blocks ss)
  | [], _ => pure
  | s :: rest, loopless => by
    have inside := List.forall_mem_append.1 loopless
    have begins : MakesAtMost all [] (pass blocks (.statement s) : Step η Unit) :=
      MakesAtMost.pass
    exact begins.bind fun _ => (execute_makes blocks s inside.1).bind fun _ =>
      executeAll_makes blocks rest inside.2

end

end Traced

/-! ## Operands -/

/-- The value of the left operand decides, whatever the right one is. -/
def BinaryOperator.decidedBy (truthiness : Truthiness) : BinaryOperator → Value → Bool
  | .and, v => !truthiness.holds v
  | .or, v => truthiness.holds v
  | _, _ => false

namespace Run

/-- The result of an operator that the left operand has not decided. -/
def combine (setting : Setting η) (span : Span) (operator : BinaryOperator) (left right : Value) :
    Step η Value :=
  match operator with
  | .and | .or => Pure.pure (.bool (setting.truthiness.holds right))
  | operator => settle span (Value.apply operator left right)

/-- Operands are evaluated from left to right, and the right one only if the left one does not
decide. -/
theorem evaluate_binary (setting : Setting η) (span : Span) (operator : BinaryOperator) (a b : Expr)
    (w : World η) :
    evaluate setting (.binary span operator a b) w =
      (evaluate setting a w).andThen fun left v =>
        if operator.decidedBy setting.truthiness left then
          .done (.bool (setting.truthiness.holds left)) v
        else (evaluate setting b v).andThen (combine setting span operator left) := by
  rw [evaluate, Action.bind_apply]
  congr 1
  funext left v
  cases operator with
  | and | or =>
    by_cases holds : setting.truthiness.holds left = true <;>
    · simp only [BinaryOperator.decidedBy, holds]
      rfl
  | _ => rfl

end Run

/-! ## Sessions -/

namespace Session

variable {all : List Call}

theorem inOrderOf_lasts : (inOrderOf η all).Lasts fun w => w.host.2 = [] where
  cancelled _ fresh := fresh
  waiting _ ahead := ahead
  resumes _ same := same
  dropped := by
    intro w reason fresh _
    show Ahead all [] w
    rw [Ahead, fresh]
    exact List.nil_sublist _

/-- However far a session has come, the calls in its trace are in order. -/
theorem Upholds.ahead {s : Session (η × List Event)} {finisher : Finisher η}
    (upholds : s.Upholds (inOrderOf η all) fun w => w.host.2 = [])
    (same : s.finisher = finisher.withMemory) : Ahead all [] s.world := by
  have memory (result : Option RunResult) (w : World (η × List Event)) :
      (s.finisher.effect result w).2.host.2 = w.host.2 := by
    rw [same]
    exact finisher.withMemory_memory result w
  cases phase : s.phase with
  | fresh program =>
    obtain ⟨fresh, -⟩ := upholds.fresh phase
    rw [Ahead, fresh]
    exact List.nil_sublist _
  | waiting p next => exact (upholds.waiting phase).1
  | finished result =>
    obtain @⟨why, v, noted, before, cancelled, exits, results, notes, acted, later⟩ :=
      upholds.finished phase
    refine Ahead.of_eq exits ?_
    rw [later]
    exact (memory _ _).trans (notes ▸ rfl)
  | broken last =>
    obtain ⟨d, v, exits, later⟩ := upholds.broken phase
    exact Ahead.of_eq exits (later.preserves (·.host.2) (fun _ _ => rfl) (memory none))

/-- Over any history, a script without loops makes its calls from front to back. -/
theorem traced_ahead (setting : Setting η) {script : Block} (loopless : Loopless script.walk)
    (world : World η) (finisher : Finisher η) (moves : List Move) :
    (callsIn (moves.foldl Session.move
      (ofTraced setting script world finisher)).world.host.2).Sublist script.allCalls := by
  have upholds : (moves.foldl Session.move (ofTraced setting script world finisher)).Upholds
      (inOrderOf η script.allCalls) fun w => w.host.2 = [] := by
    refine moves_uphold inOrderOf_lasts (fun _ _ _ _ _ => rfl) ⟨rfl, fun w fresh => ?_⟩
    obtain ⟨span, statements⟩ := script
    have makes := Traced.executeAll_makes setting (Block.mk span statements).allCalls [] statements
      (fun node member => loopless node (List.mem_cons_of_mem _ member)) []
    refine makes w ?_
    rw [Ahead, fresh, List.append_nil]
    exact List.Sublist.refl _
  have ahead := upholds.ahead (moves_finisher _ _)
  rwa [Ahead, List.append_nil] at ahead

end Session

/-- Calls are made in the order of the text. Let a script without loops be read from a text, and let
its run be driven in whatever way, with any host. It shows the same as a run that keeps a trace, and
the calls of its host are those in the trace. These are calls of the script from front to back, some
of them left out, where a call comes behind those in its arguments, a guard before its body, and
whatever else in the order of the text; so each of them ends behind those before it, and none is
made twice. And the right operand of `and` and `or` is evaluated only if the left one does not
decide. -/
theorem calls_in_source_order {g : Grammar} (words : g.WordsOnly) {source : Source} {script : Block}
    (parsed : Block.ofSource g source = .ok script) (loopless : Loopless script.walk)
    (setting : Setting η) (world : World η) {finisher : Finisher η} (modest : finisher.Modest)
    (moves : List Session.Move) :
    let session := moves.foldl Session.move (Session.ofScript setting script world finisher)
    let traced := moves.foldl Session.move (Session.ofTraced setting script world finisher)
    let calls := callsIn traced.world.host.2
    (session.Same traced ∧ ∃ made, session.world.calls.toList = world.calls.toList ++ made ∧
        List.Forall₂ (Call.Made setting.catalog) calls made) ∧
      calls.Sublist script.allCalls ∧
      (calls.Pairwise fun c d => c.span.stop.offset < d.span.stop.offset) ∧
      (calls.map Call.span).Nodup ∧
      ∀ span operator a b (w : World η), Run.evaluate setting (.binary span operator a b) w =
        (Run.evaluate setting a w).andThen fun left v =>
          if operator.decidedBy setting.truthiness left then
            .done (.bool (setting.truthiness.holds left)) v
          else (Run.evaluate setting b v).andThen (Run.combine setting span operator left) := by
  intro session traced calls
  have same : session.Same traced :=
    Session.traced_same setting script world finisher moves modest.keepsRun
  have ahead : calls.Sublist script.allCalls :=
    Session.traced_ahead setting loopless world finisher moves
  have ordered : calls.Pairwise fun c d => c.span.stop.offset < d.span.stop.offset :=
    (Block.calls_end_in_order words parsed).sublist ahead
  refine ⟨⟨same, ?_⟩, ahead, ordered, ?_, Run.evaluate_binary setting⟩
  · rw [same.calls]
    exact Session.traced_calls setting script world modest moves
  · rw [List.Nodup, List.pairwise_map]
    refine ordered.imp fun {c d} less equal => ?_
    rw [equal] at less
    exact Nat.lt_irrefl _ less

/-- A host with a function for each truth value, and one that takes two of them. -/
def answering : Setting Unit where
  catalog := { functions := [{ name := "Yes", returns := .bool },
    { name := "No", returns := .bool },
    { name := "Both", params := [⟨"first", .any, none⟩, ⟨"second", .any, none⟩],
      returns := .bool }] }
  host f _ directory state :=
    { outcome := .value (.bool (f.name ≠ "No")), host := state, directory }

/-- A script with eight calls. -/
def eightCalls : List Char :=
  "x = Both(Yes(), second = No() and Yes())\nif No() or x then Both(Yes(), Yes()) endif".toList

/-- The session of a script with this host, with its trace. -/
def answered (script : Block) : Session (Unit × List Event) :=
  [.start].foldl Session.move
    (Session.ofTraced answering script ⟨{}, (), none, #[], #[]⟩ Finisher.idle)

/-- All calls are made but the one that the left operand of `and` makes superfluous. -/
theorem eightCalls_in_order : Grammar.second.WordsOnly ∧
    ∃ script, Block.ofSource Grammar.second ⟨eightCalls, none⟩ = .ok script ∧
      Loopless script.walk ∧ script.allCalls.length = 8 ∧
      (callsIn (answered script).world.host.2).length = 7 ∧
      (callsIn (answered script).world.host.2).Pairwise
        fun c d => c.span.stop.offset < d.span.stop.offset := by
  have words : Grammar.second.WordsOnly := Grammar.Standard.wordsOnly (.inr rfl)
  have counted : ((Block.ofSource Grammar.second ⟨eightCalls, none⟩).map fun script =>
      (script.walk.all (! ·.isLoop), script.allCalls.length,
        (callsIn (answered script).world.host.2).length)).toOption = some (true, 8, 7) := by
    decide +kernel
  cases parsed : Block.ofSource Grammar.second ⟨eightCalls, none⟩ with
  | error e =>
    rw [parsed] at counted
    cases counted
  | ok script =>
    rw [parsed] at counted
    injection counted with counts
    injection counts with noLoop counts
    injection counts with all made
    have loopless : Loopless script.walk := by simpa [Loopless] using noLoop
    obtain ⟨-, -, ordered, -⟩ := calls_in_source_order words parsed loopless answering
      ⟨{}, (), none, #[], #[]⟩ Finisher.idle_modest [.start]
    exact ⟨words, script, rfl, loopless, all, made, ordered⟩

end InstallScript
