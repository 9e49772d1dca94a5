import InstallScript.Tree.Walk

/-!
Trees of one shape. What may differ between them is said for each kind of node by a kinship: the
stretches of nodes that a run may fail at, the names that are assigned to, the calls as far as their
own names go, and what stands for a variable that is read. The rest is the same on both sides, but
for comments and for stretches that only a reader looks at.
-/

namespace InstallScript

/-- In what two trees of one shape may differ. -/
structure Kinship where
  /-- The stretches of nodes that a run may fail at. -/
  span : Span → Span → Prop
  /-- The names of variables that are assigned to. -/
  target : String → String → Prop
  /-- What may stand for a variable that is read. -/
  read : Span → String → Expr → Prop
  /-- Calls, the expressions of their arguments aside. -/
  call : Call → Call → Prop

/-- Nothing differs. -/
def Kinship.same : Kinship :=
  ⟨Eq, Eq, fun span name e => e = .var span name, Eq⟩

mutual

/-- Expressions of one shape. -/
inductive Expr.Kin (k : Kinship) : Expr → Expr → Prop
  | literal {span span' : Span} {value : Literal} :
    Expr.Kin k (.literal span value) (.literal span' value)
  | var {span : Span} {name : String} {e : Expr} (read : k.read span name e) :
    Expr.Kin k (.var span name) e
  | call {c c' : Call} (calls : Call.Kin k c c') : Expr.Kin k (.call c) (.call c')
  | binary {span span' : Span} {operator : BinaryOperator} {a a' b b' : Expr}
    (spans : k.span span span') (left : Expr.Kin k a a') (right : Expr.Kin k b b') :
    Expr.Kin k (.binary span operator a b) (.binary span' operator a' b')
  | unary {span span' : Span} {operator : UnaryOperator} {e e' : Expr}
    (spans : k.span span span') (operand : Expr.Kin k e e') :
    Expr.Kin k (.unary span operator e) (.unary span' operator e')

/-- Calls of one shape. -/
inductive Call.Kin (k : Kinship) : Call → Call → Prop
  | mk {span span' : Span} {name name' : String} {es es' : List Expr}
    {ks ks' : List KeywordArgument}
    (heads : k.call (.mk span name es ks) (.mk span' name' es' ks')) (arguments : ExprsKin k es es')
    (keywords : ExprsKin k (ks.map (·.value)) (ks'.map (·.value))) :
    Call.Kin k (.mk span name es ks) (.mk span' name' es' ks')

/-- Expressions of one shape, one by one. -/
inductive ExprsKin (k : Kinship) : List Expr → List Expr → Prop
  | nil : ExprsKin k [] []
  | cons {e e' : Expr} {es es' : List Expr} (first : Expr.Kin k e e')
    (others : ExprsKin k es es') : ExprsKin k (e :: es) (e' :: es')

end

mutual

/-- Statements of one shape. -/
inductive Stmt.Kin (k : Kinship) : Stmt → Stmt → Prop
  | assign {span span' : Span} {mode : AssignMode} {name name' : String} {e e' : Expr}
    (spans : k.span span span') (targets : k.target name name') (value : e.Kin k e') :
    Stmt.Kin k (.assign span mode name e) (.assign span' mode name' e')
  | call {c c' : Call} (calls : c.Kin k c') : Stmt.Kin k (.call c) (.call c')
  | choice {span span' : Span} {bs bs' : List Branch} (branches : BranchesKin k bs bs') :
    Stmt.Kin k (.choice span bs none) (.choice span' bs' none)
  | choiceElse {span span' : Span} {bs bs' : List Branch} {b b' : Block}
    (branches : BranchesKin k bs bs') (otherwise : Block.Kin k b b') :
    Stmt.Kin k (.choice span bs (some b)) (.choice span' bs' (some b'))
  | whileLoop {span span' : Span} {e e' : Expr} {b b' : Block} (spans : k.span span span')
    (condition : e.Kin k e') (body : Block.Kin k b b') :
    Stmt.Kin k (.whileLoop span e b) (.whileLoop span' e' b')
  | forLoop {span span' : Span} {counter counter' : String} {e e' d d' : Expr} {b b' : Block}
    (spans : k.span span span') (counters : k.target counter counter') (first : e.Kin k e')
    (last : d.Kin k d') (body : Block.Kin k b b') :
    Stmt.Kin k (.forLoop span counter e d none b) (.forLoop span' counter' e' d' none b')
  | forLoopStep {span span' : Span} {counter counter' : String} {e e' d d' i i' : Expr}
    {b b' : Block} (spans : k.span span span') (counters : k.target counter counter')
    (first : e.Kin k e') (last : d.Kin k d') (step : i.Kin k i') (body : Block.Kin k b b') :
    Stmt.Kin k (.forLoop span counter e d (some i) b) (.forLoop span' counter' e' d' (some i') b')
  | block {b b' : Block} (body : Block.Kin k b b') : Stmt.Kin k (.block b) (.block b')
  | ret {span span' : Span} : Stmt.Kin k (.ret span) (.ret span')
  | comment {span span' : Span} {text text' : String} :
    Stmt.Kin k (.comment span text) (.comment span' text')

/-- Branches of one shape, one by one. -/
inductive BranchesKin (k : Kinship) : List Branch → List Branch → Prop
  | nil : BranchesKin k [] []
  | cons {span span' : Span} {e e' : Expr} {b b' : Block} {bs bs' : List Branch}
    (condition : e.Kin k e') (body : Block.Kin k b b') (others : BranchesKin k bs bs') :
    BranchesKin k (.mk span e b :: bs) (.mk span' e' b' :: bs')

/-- Blocks of one shape. -/
inductive Block.Kin (k : Kinship) : Block → Block → Prop
  | mk {span span' : Span} {ss ss' : List Stmt} (statements : StmtsKin k ss ss') :
    Block.Kin k (.mk span ss) (.mk span' ss')

/-- Statements of one shape, one by one. -/
inductive StmtsKin (k : Kinship) : List Stmt → List Stmt → Prop
  | nil : StmtsKin k [] []
  | cons {s s' : Stmt} {ss ss' : List Stmt} (first : Stmt.Kin k s s')
    (others : StmtsKin k ss ss') : StmtsKin k (s :: ss) (s' :: ss')

end

/-! ## A tree beside itself -/

mutual

theorem Expr.kin_same : ∀ e : Expr, e.Kin .same e
  | .literal _ _ => .literal
  | .var _ _ => .var rfl
  | .call c => .call (Call.kin_same c)
  | .binary _ _ a b => .binary rfl (Expr.kin_same a) (Expr.kin_same b)
  | .unary _ _ e => .unary rfl (Expr.kin_same e)

theorem Call.kin_same : ∀ c : Call, c.Kin .same c
  | .mk _ _ arguments keywords => .mk rfl (exprs_kin_same arguments) (keywords_kin_same keywords)

theorem exprs_kin_same : ∀ es : List Expr, ExprsKin .same es es
  | [] => .nil
  | e :: es => .cons (Expr.kin_same e) (exprs_kin_same es)

theorem keywords_kin_same : ∀ ks : List KeywordArgument,
    ExprsKin .same (ks.map (·.value)) (ks.map (·.value))
  | [] => .nil
  | .mk _ _ e :: ks => .cons (Expr.kin_same e) (keywords_kin_same ks)

end

mutual

theorem Stmt.kin_same : ∀ s : Stmt, s.Kin .same s
  | .assign _ _ _ e => .assign rfl rfl e.kin_same
  | .call c => .call c.kin_same
  | .choice _ bs none => .choice (branches_kin_same bs)
  | .choice _ bs (some b) => .choiceElse (branches_kin_same bs) (Block.kin_same b)
  | .whileLoop _ e b => .whileLoop rfl e.kin_same (Block.kin_same b)
  | .forLoop _ _ e d none b => .forLoop rfl rfl e.kin_same d.kin_same (Block.kin_same b)
  | .forLoop _ _ e d (some i) b =>
    .forLoopStep rfl rfl e.kin_same d.kin_same i.kin_same (Block.kin_same b)
  | .block b => .block (Block.kin_same b)
  | .ret _ => .ret
  | .comment _ _ => .comment

theorem branches_kin_same : ∀ bs : List Branch, BranchesKin .same bs bs
  | [] => .nil
  | .mk _ e b :: bs => .cons e.kin_same (Block.kin_same b) (branches_kin_same bs)

theorem Block.kin_same : ∀ b : Block, b.Kin .same b
  | .mk _ ss => .mk (stmts_kin_same ss)

theorem stmts_kin_same : ∀ ss : List Stmt, StmtsKin .same ss ss
  | [] => .nil
  | s :: ss => .cons (Stmt.kin_same s) (stmts_kin_same ss)

end

/-! ## Closer kinships -/

/-- What differs at a node under the first kinship may differ there under the second one. -/
def Kinship.Allows (k k' : Kinship) : Node → Prop
  | .expr (.var span name) => ∀ e, k.read span name e → k'.read span name e
  | .expr (.call c) => ∀ c', k.call c c' → k'.call c c'
  | .expr (.binary span _ _ _) | .expr (.unary span _ _) | .stmt (.whileLoop span _ _) =>
    ∀ span', k.span span span' → k'.span span span'
  | .stmt (.assign span _ name _) | .stmt (.forLoop span name _ _ _ _) =>
    (∀ span', k.span span span' → k'.span span span') ∧
      ∀ name', k.target name name' → k'.target name name'
  | _ => True

theorem mem_walkKeywords {node : Node} : ∀ {ks : List KeywordArgument},
    node ∈ walkExprs (ks.map (·.value)) → node ∈ walkKeywords ks
  | .mk _ _ _ :: _, member => by
    rcases List.mem_append.1 member with here | later
    · exact List.mem_cons_of_mem _ (List.mem_append_left _ here)
    · exact List.mem_cons_of_mem _ (List.mem_append_right _ (mem_walkKeywords later))

section

variable {k k' : Kinship}

mutual

/-- One kinship may be replaced by another one that allows as much at every node. -/
theorem Expr.Kin.imp {e e' : Expr} : e.Kin k e' → (∀ node ∈ e.walk, k.Allows k' node) →
    e.Kin k' e'
  | .literal, _ => .literal
  | .var read, allows => .var (allows _ List.mem_cons_self _ read)
  | .call calls, allows => by
    obtain ⟨node, inner⟩ := List.forall_mem_cons.1 allows
    exact .call (Call.Kin.imp calls node inner)
  | .binary spans left right, allows => by
    obtain ⟨node, inner⟩ := List.forall_mem_cons.1 allows
    obtain ⟨first, second⟩ := List.forall_mem_append.1 inner
    exact .binary (node _ spans) (Expr.Kin.imp left first) (Expr.Kin.imp right second)
  | .unary spans operand, allows => by
    obtain ⟨node, inner⟩ := List.forall_mem_cons.1 allows
    exact .unary (node _ spans) (Expr.Kin.imp operand inner)

theorem Call.Kin.imp {c c' : Call} : c.Kin k c' → (∀ c', k.call c c' → k'.call c c') →
    (∀ node ∈ c.walkArguments, k.Allows k' node) → c.Kin k' c'
  | .mk heads arguments keywords, node, inner => by
    obtain ⟨first, second⟩ := List.forall_mem_append.1 inner
    exact .mk (node _ heads) (ExprsKin.imp arguments first)
      (ExprsKin.imp keywords fun n member => second n (mem_walkKeywords member))

theorem ExprsKin.imp {es es' : List Expr} : ExprsKin k es es' →
    (∀ node ∈ walkExprs es, k.Allows k' node) → ExprsKin k' es es'
  | .nil, _ => .nil
  | .cons first others, allows => by
    obtain ⟨here, later⟩ := List.forall_mem_append.1 allows
    exact .cons (Expr.Kin.imp first here) (ExprsKin.imp others later)

end

mutual

theorem Stmt.Kin.imp {s s' : Stmt} : s.Kin k s' → (∀ node ∈ s.walk, k.Allows k' node) →
    s.Kin k' s'
  | .assign spans targets value, allows => by
    obtain ⟨node, inner⟩ := List.forall_mem_cons.1 allows
    exact .assign (node.1 _ spans) (node.2 _ targets) (value.imp inner)
  | .call calls, allows => by
    obtain ⟨-, inner⟩ := List.forall_mem_cons.1 allows
    obtain ⟨node, inner⟩ := List.forall_mem_cons.1 inner
    exact .call (calls.imp node inner)
  | .choice branches, allows => .choice (BranchesKin.imp branches (List.forall_mem_cons.1 allows).2)
  | .choiceElse branches otherwise, allows => by
    obtain ⟨-, inner⟩ := List.forall_mem_cons.1 allows
    obtain ⟨first, second⟩ := List.forall_mem_append.1 inner
    exact .choiceElse (BranchesKin.imp branches first) (Block.Kin.imp otherwise second)
  | .whileLoop spans condition body, allows => by
    obtain ⟨node, inner⟩ := List.forall_mem_cons.1 allows
    obtain ⟨test, round⟩ := List.forall_mem_append.1 inner
    exact .whileLoop (node _ spans) (condition.imp test) (Block.Kin.imp body round)
  | .forLoop spans counters first last body, allows => by
    obtain ⟨node, inner⟩ := List.forall_mem_cons.1 allows
    obtain ⟨bounds, round⟩ := List.forall_mem_append.1 inner
    obtain ⟨start, stop⟩ := List.forall_mem_append.1 bounds
    exact .forLoop (node.1 _ spans) (node.2 _ counters) (first.imp start) (last.imp stop)
      (Block.Kin.imp body round)
  | .forLoopStep spans counters first last step body, allows => by
    obtain ⟨node, inner⟩ := List.forall_mem_cons.1 allows
    obtain ⟨rest, increment⟩ := List.forall_mem_append.1 inner
    obtain ⟨bounds, round⟩ := List.forall_mem_append.1 rest
    obtain ⟨start, stop⟩ := List.forall_mem_append.1 bounds
    exact .forLoopStep (node.1 _ spans) (node.2 _ counters) (first.imp start) (last.imp stop)
      (step.imp increment) (Block.Kin.imp body round)
  | .block body, allows => .block (Block.Kin.imp body allows)
  | .ret, _ => .ret
  | .comment, _ => .comment

theorem BranchesKin.imp {bs bs' : List Branch} : BranchesKin k bs bs' →
    (∀ node ∈ walkBranches bs, k.Allows k' node) → BranchesKin k' bs bs'
  | .nil, _ => .nil
  | .cons condition body others, allows => by
    obtain ⟨-, inner⟩ := List.forall_mem_cons.1 allows
    obtain ⟨here, later⟩ := List.forall_mem_append.1 inner
    obtain ⟨test, body'⟩ := List.forall_mem_append.1 here
    exact .cons (condition.imp test) (Block.Kin.imp body body') (BranchesKin.imp others later)

theorem Block.Kin.imp {b b' : Block} : b.Kin k b' → (∀ node ∈ b.walk, k.Allows k' node) →
    b.Kin k' b'
  | .mk statements, allows => .mk (StmtsKin.imp statements (List.forall_mem_cons.1 allows).2)

theorem StmtsKin.imp {ss ss' : List Stmt} : StmtsKin k ss ss' →
    (∀ node ∈ walkStmts ss, k.Allows k' node) → StmtsKin k' ss ss'
  | .nil, _ => .nil
  | .cons first others, allows => by
    obtain ⟨here, later⟩ := List.forall_mem_append.1 allows
    exact .cons (Stmt.Kin.imp first here) (StmtsKin.imp others later)

end

end

end InstallScript
