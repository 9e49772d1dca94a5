import InstallScript.Tree

/-!
Walks through a tree. A node comes before the nodes below it, and these come in the order of the
parts of the node; the step of a counted loop is its last part.
-/

namespace InstallScript

/-- A node of a tree. -/
inductive Node
  | expr (e : Expr)
  | keyword (k : KeywordArgument)
  | stmt (s : Stmt)
  | branch (b : Branch)
  | block (b : Block)

mutual

/-- The nodes of an expression. -/
def Expr.walk : Expr → List Node
  | .literal span v => [.expr (.literal span v)]
  | .var span n => [.expr (.var span n)]
  | .call c => .expr (.call c) :: c.walkArguments
  | .binary span o a b => .expr (.binary span o a b) :: (a.walk ++ b.walk)
  | .unary span o a => .expr (.unary span o a) :: a.walk

/-- The nodes of the arguments of a call. -/
def Call.walkArguments : Call → List Node
  | .mk _ _ arguments keywords => walkExprs arguments ++ walkKeywords keywords

/-- The nodes of several expressions. -/
def walkExprs : List Expr → List Node
  | [] => []
  | e :: rest => e.walk ++ walkExprs rest

/-- The nodes of several named arguments. -/
def walkKeywords : List KeywordArgument → List Node
  | [] => []
  | .mk span n v :: rest => .keyword (.mk span n v) :: (v.walk ++ walkKeywords rest)

end

mutual

/-- The nodes of a statement. -/
def Stmt.walk : Stmt → List Node
  | .assign span m n v => .stmt (.assign span m n v) :: v.walk
  | .call c => .stmt (.call c) :: (Expr.call c).walk
  | .choice span bs none => .stmt (.choice span bs none) :: walkBranches bs
  | .choice span bs (some b) => .stmt (.choice span bs (some b)) :: (walkBranches bs ++ b.walk)
  | .whileLoop span c b => .stmt (.whileLoop span c b) :: (c.walk ++ b.walk)
  | .forLoop span n first last none b =>
    .stmt (.forLoop span n first last none b) :: (first.walk ++ last.walk ++ b.walk)
  | .forLoop span n first last (some step) b =>
    .stmt (.forLoop span n first last (some step) b) ::
      (first.walk ++ last.walk ++ b.walk ++ step.walk)
  | .block b => b.walk
  | .ret span => [.stmt (.ret span)]
  | .comment span text => [.stmt (.comment span text)]

/-- The nodes of several branches. -/
def walkBranches : List Branch → List Node
  | [] => []
  | .mk span c b :: rest => .branch (.mk span c b) :: (c.walk ++ b.walk ++ walkBranches rest)

/-- The nodes of a block. -/
def Block.walk : Block → List Node
  | .mk span ss => .block (.mk span ss) :: walkStmts ss

/-- The nodes of several statements. -/
def walkStmts : List Stmt → List Node
  | [] => []
  | s :: rest => s.walk ++ walkStmts rest

end

/-- The nodes directly below a block. -/
def Block.children (b : Block) : List Node :=
  b.statements.map fun
    | .block inner => .block inner
    | s => .stmt s

end InstallScript
