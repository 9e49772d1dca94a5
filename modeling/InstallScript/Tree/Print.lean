import InstallScript.Tree
import InstallScript.Text.Quoted

/-!
From a tree to canonical text: one statement a line, keywords in small letters, strings in double
quotes, and parentheses only where the grouping of operators asks for them.
-/

namespace InstallScript

/-! ## Literals -/

/-- One character of a string literal. -/
def literalChar (c : Char) : List Char :=
  if c = '\\' then ['\\', '\\']
  else if c = '"' then ['\\', '"']
  else if c = '\n' then ['\\', 'n']
  else if c = '\t' then ['\\', 't']
  else if c = '\r' then ['\\', 'r']
  else if c = '\x00' then ['\\', '0']
  else if c.toNat < 32 then '\\' :: 'x' :: Text.hex 2 c.toNat
  else [c]

/-- A string literal. -/
def stringLiteral (s : String) : String :=
  String.ofList ('"' :: s.toList.flatMap literalChar ++ ['"'])

/-- A literal as text. -/
def Literal.text : Literal → String
  | number n => n.text
  | string s => stringLiteral s
  | bool b => if b then "true" else "false"

/-! ## Expressions -/

/-- How tightly an expression holds together; what is neither an operation nor the application of a
sign holds most tightly. -/
def Expr.tightness : Expr → Nat
  | .binary _ operator _ _ => operator.precedence
  | .unary .. => UnaryOperator.precedence
  | _ => UnaryOperator.precedence + 1

/-- Text in parentheses if it holds together less tightly than it has to. -/
def parenthesized (tightness least : Nat) (text : String) : String :=
  if tightness < least then "(" ++ text ++ ")" else text

mutual

/-- An expression as text. Operators group to the left, so a right operand of the same tightness is
put in parentheses. -/
def Expr.text : Expr → String
  | .literal _ value => value.text
  | .var _ name => name
  | .call c => c.text
  | .unary _ operator e =>
    let inner := parenthesized e.tightness UnaryOperator.precedence e.text
    match operator with
    | .not => "not " ++ inner
    | .minus => "-" ++ inner
  | .binary _ operator a b =>
    let left := parenthesized a.tightness operator.precedence a.text
    let right := parenthesized b.tightness (operator.precedence + 1) b.text
    left ++ " " ++ operator.symbol ++ " " ++ right

/-- A call as text. -/
def Call.text : Call → String
  | .mk _ name arguments keywords =>
    name ++ "(" ++ ", ".intercalate (exprTexts arguments ++ keywordTexts keywords) ++ ")"

/-- The texts of several expressions. -/
def exprTexts : List Expr → List String
  | [] => []
  | e :: rest => e.text :: exprTexts rest

/-- The texts of several named arguments. -/
def keywordTexts : List KeywordArgument → List String
  | [] => []
  | .mk _ name value :: rest => (name ++ "=" ++ value.text) :: keywordTexts rest

end

/-! ## Statements -/

/-- A text several times over. -/
def repeatText (n : Nat) (s : String) : String :=
  String.join (List.replicate n s)

/-- A comment as text; one of several lines is put between marks. -/
def commentText (text : String) : String :=
  if text.toList.contains '\n' then "/* " ++ text ++ " */" else "# " ++ text

section

variable (indent : String)

/-- A line at the given depth. -/
def indentedLine (depth : Nat) (text : String) : String :=
  repeatText depth indent ++ text

mutual

/-- The lines of a statement at the given depth. -/
def Stmt.lines (depth : Nat) : Stmt → List String
  | .assign _ mode name value =>
    let keyword := match mode with
      | .update => "set "
      | .bind => ""
    [indentedLine indent depth (keyword ++ name ++ " = " ++ value.text)]
  | .call c => [indentedLine indent depth c.text]
  | .choice _ branches none =>
    branchLines depth true branches ++ [indentedLine indent depth "endif"]
  | .choice _ branches (some last) =>
    branchLines depth true branches ++
      indentedLine indent depth "else" :: (last.lines (depth + 1) ++
        [indentedLine indent depth "endif"])
  | .whileLoop _ condition body =>
    indentedLine indent depth ("while " ++ condition.text ++ " do") ::
      (body.lines (depth + 1) ++ [indentedLine indent depth "endwhile"])
  | .forLoop _ counter first last step body =>
    let stepText := match step with
      | some e => " step " ++ e.text
      | none => ""
    indentedLine indent depth
        ("for " ++ counter ++ " = " ++ first.text ++ " to " ++ last.text ++ stepText ++ " do") ::
      (body.lines (depth + 1) ++ [indentedLine indent depth "endfor"])
  | .block body =>
    indentedLine indent depth "begin" ::
      (body.lines (depth + 1) ++ [indentedLine indent depth "end"])
  | .ret _ => [indentedLine indent depth "return"]
  | .comment _ text => [indentedLine indent depth (commentText text)]

/-- The lines of the guarded parts of a choice; `isFirst` tells the first one. -/
def branchLines (depth : Nat) (isFirst : Bool) : List Branch → List String
  | [] => []
  | .mk _ condition body :: rest =>
    let keyword := if isFirst then "if " else "elseif "
    indentedLine indent depth (keyword ++ condition.text ++ " then") ::
      (body.lines (depth + 1) ++ branchLines depth false rest)

/-- The lines of the statements of a block. -/
def Block.lines (depth : Nat) : Block → List String
  | .mk _ statements => stmtLines depth statements

/-- The lines of several statements. -/
def stmtLines (depth : Nat) : List Stmt → List String
  | [] => []
  | s :: rest => s.lines depth ++ stmtLines depth rest

end

end

/-- A script in canonical form. -/
def Block.format (script : Block) (indent : String := "    ") : String :=
  "\n".intercalate (script.lines indent 0) ++ "\n"

end InstallScript
