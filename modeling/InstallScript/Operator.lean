import InstallScript.Token

/-!
Operators of expressions, with how tightly they bind and how they are written.
-/

namespace InstallScript

/-- An operator between two operands. -/
inductive BinaryOperator
  | or | and
  | eq | ne | lt | gt | le | ge
  | plus | minus
  | star | slash | percent
  deriving DecidableEq, Repr

/-- An operator in front of one operand. -/
inductive UnaryOperator
  | not
  | minus
  deriving DecidableEq, Repr

namespace BinaryOperator

/-- How tightly an operator binds; all of them group to the left. -/
def precedence : BinaryOperator → Nat
  | or => 1
  | and => 2
  | eq | ne | lt | gt | le | ge => 3
  | plus | minus => 4
  | star | slash | percent => 5

/-- How an operator is written. -/
def symbol : BinaryOperator → String
  | or => "or"
  | and => "and"
  | eq => "=="
  | ne => "!="
  | lt => "<"
  | gt => ">"
  | le => "<="
  | ge => ">="
  | plus => "+"
  | minus => "-"
  | star => "*"
  | slash => "/"
  | percent => "%"

/-- The kind of the token of an operator. -/
def kind : BinaryOperator → TokenKind
  | or => .orWord
  | and => .andWord
  | eq => .eq
  | ne => .ne
  | lt => .lt
  | gt => .gt
  | le => .le
  | ge => .ge
  | plus => .plus
  | minus => .minus
  | star => .star
  | slash => .slash
  | percent => .percent

/-- All operators. -/
def all : List BinaryOperator :=
  [or, and, eq, ne, lt, gt, le, ge, plus, minus, star, slash, percent]

/-- The operator that a token stands for. -/
def ofKind? (k : TokenKind) : Option BinaryOperator :=
  all.find? fun o => o.kind = k

end BinaryOperator

namespace UnaryOperator

/-- Operators in front bind more tightly than all between. -/
def precedence : Nat := 6

/-- The kind of the token of an operator. -/
def kind : UnaryOperator → TokenKind
  | not => .notWord
  | minus => .minus

/-- The operator that a token stands for. -/
def ofKind? : TokenKind → Option UnaryOperator
  | .notWord => some not
  | .minus => some minus
  | _ => none

end UnaryOperator

end InstallScript
