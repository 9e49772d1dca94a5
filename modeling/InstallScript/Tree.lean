import InstallScript.Operator

/-!
Statement trees. Every node knows the stretch of the script that it was read from; two trees stand
for the same program when they are equal but for these stretches (`Block.same`).
-/

namespace InstallScript

/-- A literal value. -/
inductive Literal
  | number (value : Number)
  | string (value : String)
  | bool (value : Bool)
  deriving DecidableEq, Repr

/-- A literal as plain data. -/
def Literal.toDatum : Literal → Datum
  | number n => .number n
  | string s => .text s
  | bool b => .bool b

/-- How an assignment finds its variable. -/
inductive AssignMode
  /-- Binds the name in the innermost scope. -/
  | bind
  /-- Changes the nearest binding of the name. -/
  | update
  deriving DecidableEq, Repr

/-- The name of a mode. -/
def AssignMode.name : AssignMode → String
  | bind => "bind"
  | update => "update"

/-! ## Nodes -/

mutual

/-- An expression. -/
inductive Expr
  | literal (span : Span) (value : Literal)
  | var (span : Span) (name : String)
  | call (call : Call)
  | binary (span : Span) (operator : BinaryOperator) (left right : Expr)
  | unary (span : Span) (operator : UnaryOperator) (operand : Expr)

/-- A call of a host function. -/
inductive Call
  | mk (span : Span) (name : String) (arguments : List Expr) (keywords : List KeywordArgument)

/-- An argument that is given by name. -/
inductive KeywordArgument
  | mk (span : Span) (name : String) (value : Expr)

end

mutual

/-- A statement. -/
inductive Stmt
  | assign (span : Span) (mode : AssignMode) (name : String) (value : Expr)
  | call (call : Call)
  | choice (span : Span) (branches : List Branch) (otherwise : Option Block)
  | whileLoop (span : Span) (condition : Expr) (body : Block)
  | forLoop (span : Span) (counter : String) (first last : Expr) (step : Option Expr)
      (body : Block)
  | block (block : Block)
  | ret (span : Span)
  | comment (span : Span) (text : String)

/-- A guarded part of a choice. -/
inductive Branch
  | mk (span : Span) (condition : Expr) (body : Block)

/-- A sequence of statements. A whole script is one, too. -/
inductive Block
  | mk (span : Span) (statements : List Stmt)

end

namespace Call

/-- The stretch of a call. -/
def span : Call → Span
  | mk span _ _ _ => span

/-- The name of the called function, as the call writes it. -/
def name : Call → String
  | mk _ name _ _ => name

/-- The arguments that are given by position. -/
def arguments : Call → List Expr
  | mk _ _ arguments _ => arguments

/-- The arguments that are given by name. -/
def keywords : Call → List KeywordArgument
  | mk _ _ _ keywords => keywords

end Call

namespace KeywordArgument

/-- The stretch of an argument. -/
def span : KeywordArgument → Span
  | mk span _ _ => span

/-- The name that an argument is given by. -/
def name : KeywordArgument → String
  | mk _ name _ => name

/-- The expression of an argument. -/
def value : KeywordArgument → Expr
  | mk _ _ value => value

end KeywordArgument

/-- The stretch of an expression. -/
def Expr.span : Expr → Span
  | literal span _ => span
  | var span _ => span
  | call c => c.span
  | binary span _ _ _ => span
  | unary span _ _ => span

namespace Block

/-- The stretch of a block. -/
def span : Block → Span
  | mk span _ => span

/-- The statements of a block. -/
def statements : Block → List Stmt
  | mk _ statements => statements

end Block

namespace Branch

/-- The stretch of a branch. -/
def span : Branch → Span
  | mk span _ _ => span

/-- The guard of a branch. -/
def condition : Branch → Expr
  | mk _ condition _ => condition

/-- The body of a branch. -/
def body : Branch → Block
  | mk _ _ body => body

end Branch

/-- The stretch of a statement. -/
def Stmt.span : Stmt → Span
  | assign span _ _ _ => span
  | call c => c.span
  | choice span _ _ => span
  | whileLoop span _ _ => span
  | forLoop span _ _ _ _ _ => span
  | block b => b.span
  | ret span => span
  | comment span _ => span

/-! ## Equality of programs -/

/-- Equal literals; numbers are compared by value. -/
def Literal.same : Literal → Literal → Bool
  | number a, number b => a.same b
  | string a, string b => a = b
  | bool a, bool b => a = b
  | _, _ => false

mutual

/-- Expressions that are equal but for their stretches. -/
def Expr.same : Expr → Expr → Bool
  | .literal _ a, .literal _ b => a.same b
  | .var _ a, .var _ b => a = b
  | .call a, .call b => a.same b
  | .binary _ o a b, .binary _ p c d => o = p && a.same c && b.same d
  | .unary _ o a, .unary _ p b => o = p && a.same b
  | _, _ => false

/-- Calls that are equal but for their stretches. -/
def Call.same : Call → Call → Bool
  | .mk _ f as ks, .mk _ g bs ls => f = g && sameExprs as bs && sameKeywords ks ls

/-- Lists of expressions that are equal but for their stretches. -/
def sameExprs : List Expr → List Expr → Bool
  | [], [] => true
  | a :: as, b :: bs => a.same b && sameExprs as bs
  | _, _ => false

/-- Lists of named arguments that are equal but for their stretches. -/
def sameKeywords : List KeywordArgument → List KeywordArgument → Bool
  | [], [] => true
  | .mk _ n a :: as, .mk _ m b :: bs => n = m && a.same b && sameKeywords as bs
  | _, _ => false

end

mutual

/-- Statements that are equal but for their stretches. -/
def Stmt.same : Stmt → Stmt → Bool
  | .assign _ m n a, .assign _ k l b => m = k && n = l && a.same b
  | .call a, .call b => a.same b
  | .choice _ as none, .choice _ bs none => sameBranches as bs
  | .choice _ as (some a), .choice _ bs (some b) => sameBranches as bs && a.same b
  | .whileLoop _ a p, .whileLoop _ b q => a.same b && p.same q
  | .forLoop _ n a b none p, .forLoop _ m c d none q =>
    n = m && a.same c && b.same d && p.same q
  | .forLoop _ n a b (some s) p, .forLoop _ m c d (some t) q =>
    n = m && a.same c && b.same d && s.same t && p.same q
  | .block a, .block b => a.same b
  | .ret _, .ret _ => true
  | .comment _ a, .comment _ b => a = b
  | _, _ => false

/-- Lists of branches that are equal but for their stretches. -/
def sameBranches : List Branch → List Branch → Bool
  | [], [] => true
  | .mk _ a p :: as, .mk _ b q :: bs => a.same b && p.same q && sameBranches as bs
  | _, _ => false

/-- Blocks that are equal but for their stretches. -/
def Block.same : Block → Block → Bool
  | .mk _ as, .mk _ bs => sameStmts as bs

/-- Lists of statements that are equal but for their stretches. -/
def sameStmts : List Stmt → List Stmt → Bool
  | [], [] => true
  | a :: as, b :: bs => a.same b && sameStmts as bs
  | _, _ => false

end

end InstallScript
