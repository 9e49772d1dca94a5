import InstallScript.Source
import InstallScript.Datum

/-!
Tokens of the script language: their kinds, the coarse categories that messages use, and the
tokens themselves.
-/

namespace InstallScript

/-- The kind of a token. -/
inductive TokenKind
  | numberLiteral | stringLiteral | boolLiteral
  | identifier
  | ifWord | thenWord | elseifWord | elseWord | endifWord
  | whileWord | doWord | endwhileWord
  | forWord | toWord | stepWord | endforWord
  | beginWord | endWord | letWord | setWord | returnWord
  | andWord | orWord | notWord
  | plus | minus | star | slash | percent
  | eq | ne | lt | gt | le | ge
  | assign
  | leftParen | rightParen | comma | semicolon
  | comment
  | endOfInput
  deriving DecidableEq, Repr

/-- The coarse class of a token. -/
inductive TokenCategory
  | keyword | identifier | stringLiteral | numberLiteral | operator | punctuation | comment
  | endOfInput
  deriving DecidableEq, Repr

/-- The name of a category. -/
def TokenCategory.name : TokenCategory → String
  | keyword => "keyword"
  | identifier => "identifier"
  | stringLiteral => "string-literal"
  | numberLiteral => "number-literal"
  | operator => "operator"
  | punctuation => "punctuation"
  | comment => "comment"
  | endOfInput => "end-of-input"

namespace TokenKind

/-- The name of a kind. -/
def name : TokenKind → String
  | numberLiteral => "NUMBER_LITERAL"
  | stringLiteral => "STRING_LITERAL"
  | boolLiteral => "BOOL_LITERAL"
  | identifier => "IDENTIFIER"
  | ifWord => "IF"
  | thenWord => "THEN"
  | elseifWord => "ELSEIF"
  | elseWord => "ELSE"
  | endifWord => "ENDIF"
  | whileWord => "WHILE"
  | doWord => "DO"
  | endwhileWord => "ENDWHILE"
  | forWord => "FOR"
  | toWord => "TO"
  | stepWord => "STEP"
  | endforWord => "ENDFOR"
  | beginWord => "BEGIN"
  | endWord => "END"
  | letWord => "LET"
  | setWord => "SET"
  | returnWord => "RETURN"
  | andWord => "AND"
  | orWord => "OR"
  | notWord => "NOT"
  | plus => "PLUS"
  | minus => "MINUS"
  | star => "STAR"
  | slash => "SLASH"
  | percent => "PERCENT"
  | eq => "EQ"
  | ne => "NE"
  | lt => "LT"
  | gt => "GT"
  | le => "LE"
  | ge => "GE"
  | assign => "ASSIGN"
  | leftParen => "LPAREN"
  | rightParen => "RPAREN"
  | comma => "COMMA"
  | semicolon => "SEMICOLON"
  | comment => "COMMENT"
  | endOfInput => "EOF"

/-- The category of a kind. The logical words count as operators and the truth values as keywords. -/
def category : TokenKind → TokenCategory
  | ifWord | thenWord | elseifWord | elseWord | endifWord | whileWord | doWord | endwhileWord
  | forWord | toWord | stepWord | endforWord | beginWord | endWord | letWord | setWord | returnWord
  | boolLiteral => .keyword
  | andWord | orWord | notWord | plus | minus | star | slash | percent
  | eq | ne | lt | gt | le | ge | assign => .operator
  | identifier => .identifier
  | stringLiteral => .stringLiteral
  | numberLiteral => .numberLiteral
  | comment => .comment
  | endOfInput => .endOfInput
  | leftParen | rightParen | comma | semicolon => .punctuation

end TokenKind

/-- What a token stands for. -/
inductive TokenValue
  | nothing
  | text (value : String)
  | number (value : Number)
  | bool (value : Bool)
  deriving DecidableEq, Repr

/-- The value of a token as plain data. -/
def TokenValue.toDatum : TokenValue → Datum
  | nothing => .none
  | text s => .text s
  | number n => .number n
  | bool b => .bool b

/-- A token: its kind, what it stands for, how it is written and where. -/
structure Token where
  kind : TokenKind
  value : TokenValue
  lexeme : String
  span : Span
  deriving DecidableEq, Repr

namespace Token

/-- A token as error messages name it. -/
def describe (t : Token) : String :=
  if t.kind = .endOfInput then "end of input" else s!"{t.kind.category.name} '{t.lexeme}'"

/-- A token in short: its kind, and the value of a literal or a name. -/
def text (t : Token) : String :=
  if t.kind = .numberLiteral ∨ t.kind = .stringLiteral ∨ t.kind = .identifier then
    s!"{t.kind.name}({t.value.toDatum.shown})"
  else t.kind.name

/-- The text that a token stands for. -/
def name (t : Token) : String :=
  match t.value with
  | .text s => s
  | _ => t.lexeme

end Token

end InstallScript
