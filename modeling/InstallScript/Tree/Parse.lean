import InstallScript.Tree
import InstallScript.Token.Stream

/-!
From tokens to a tree, by recursive descent with one token of lookahead and, after a name, one more.
The first token that cannot go on with the construct at hand is an error, and no token beyond it is
looked at; so an error in the text further on does not matter then.

Comments are kept beside the token that follows them. Those before a token that begins a statement
or ends a block become statements; others are dropped.
-/

namespace InstallScript

/-! ## Input -/

/-- A token with the comments right before it. -/
structure Item where
  comments : List Token
  token : Token

/-- Groups comments with the token after them; the comments read so far come last first. -/
def groupComments : List Token → List Token → List Item
  | _, [] => []
  | comments, t :: rest =>
    if t.kind = .comment then groupComments (t :: comments) rest
    else ⟨comments.reverse, t⟩ :: groupComments [] rest

/-- Where the parser stands: what is left to read, and the last token read. -/
structure Cursor where
  rest : List Item
  previous : Option Token := none

/-- Why the parser stops. -/
inductive Halt
  /-- The token at hand does not fit. -/
  | fault (fault : Fault) (span : Span)
  /-- There is no token left. -/
  | noToken
  /-- The bound on nested steps is used up. -/
  | tooDeep
  deriving DecidableEq, Repr

/-- A step of the parser. -/
def Parser (α : Type) : Type := Cursor → Except Halt (α × Cursor)

namespace Parser

/-- Gives a value and reads nothing. -/
def pure {α : Type} (a : α) : Parser α := fun c => .ok (a, c)

/-- One step after another. -/
def bind {α β : Type} (p : Parser α) (f : α → Parser β) : Parser β := fun c =>
  match p c with
  | .ok (a, c') => f a c'
  | .error halt => .error halt

instance : Monad Parser where
  pure := Parser.pure
  bind := Parser.bind

@[simp] theorem pure_apply {α : Type} (a : α) (c : Cursor) :
    (Pure.pure a : Parser α) c = .ok (a, c) := rfl

theorem bind_apply {α β : Type} (p : Parser α) (f : α → Parser β) (c : Cursor) :
    (p >>= f) c = (match p c with
      | .ok (a, c') => f a c'
      | .error h => .error h) := rfl

/-- Stops. -/
def halt {α : Type} (h : Halt) : Parser α := fun _ => .error h

/-- The token at hand. -/
def peek : Parser Token := fun c =>
  match c.rest with
  | [] => .error .noToken
  | item :: _ => .ok (item.token, c)

/-- The token after the one at hand. -/
def peekSecond : Parser Token := fun c =>
  match c.rest with
  | _ :: item :: _ => .ok (item.token, c)
  | _ => .error .noToken

/-- The comments before the token at hand. -/
def peekComments : Parser (List Token) := fun c =>
  match c.rest with
  | [] => .error .noToken
  | item :: _ => .ok (item.comments, c)

/-- Reads the token at hand. The token that ends the input stays at hand. -/
def advance : Parser Token := fun c =>
  match c.rest with
  | [] => .error .noToken
  | item :: rest =>
    .ok (item.token,
      ⟨if item.token.kind = .endOfInput then item :: rest else rest, some item.token⟩)

/-- The token at hand is not what was expected. -/
def unexpected {α : Type} (expected : String) : Parser α := do
  let t ← peek
  if t.kind = .endOfInput then halt (.fault (.unexpectedEnd expected) t.span)
  else halt (.fault (.unexpectedToken expected t.describe) t.span)

/-- Reads a token of a given kind. -/
def expect (kind : TokenKind) (expected : String) : Parser Token := do
  let t ← peek
  if t.kind = kind then advance else unexpected expected

/-- The stretch from a token to the last token read. -/
def spanFrom (start : Token) : Parser Span := fun c =>
  .ok (start.span.upTo (c.previous.getD start).span, c)

/-- Reads a semicolon if there is one. -/
def skipSemicolon : Parser Unit := do
  let t ← peek
  if t.kind = .semicolon then
    let _ ← advance
  return ()

/-! ## Expressions -/

/-- The literal that a token stands for. -/
def literalOf (t : Token) : Literal :=
  match t.value with
  | .number n => .number n
  | .bool b => .bool b
  | .text s => .string s
  | .nothing => .string t.lexeme

variable (g : Grammar)

mutual

/-- An expression whose operators between operands bind at least as tightly as `least`. The first
argument of this and the following functions bounds the depth of the recursion. -/
def expression : Nat → Nat → Parser Expr
  | 0, _ => halt .tooDeep
  | n + 1, least => do
    let left ← operand n
    operators n least left

/-- Further operators after a left operand. -/
def operators : Nat → Nat → Expr → Parser Expr
  | 0, _, _ => halt .tooDeep
  | n + 1, least, left => do
    let t ← peek
    match BinaryOperator.ofKind? t.kind with
    | none => return left
    | some operator =>
      if operator.precedence < least then return left
      else do
        let _ ← advance
        let right ← expression n (operator.precedence + 1)
        operators n least (.binary (left.span.upTo right.span) operator left right)

/-- An operand with the operators in front of it. -/
def operand : Nat → Parser Expr
  | 0 => halt .tooDeep
  | n + 1 => do
    let t ← peek
    match UnaryOperator.ofKind? t.kind with
    | none => primary n
    | some operator => do
      let _ ← advance
      let inner ← operand n
      return .unary (t.span.upTo inner.span) operator inner

/-- A literal, a variable, a call, or an expression in parentheses, which leave no trace. -/
def primary : Nat → Parser Expr
  | 0 => halt .tooDeep
  | n + 1 => do
    let t ← peek
    match t.kind with
    | .numberLiteral | .stringLiteral | .boolLiteral => do
      let _ ← advance
      return .literal t.span (literalOf t)
    | .identifier => do
      let second ← peekSecond
      if second.kind = .leftParen then do
        let c ← call n
        return .call c
      else do
        let _ ← advance
        return .var t.span t.name
    | .leftParen => do
      let _ ← advance
      let inner ← expression n 1
      let _ ← expect .rightParen "')'"
      return inner
    | .endOfInput => halt (.fault (.unexpectedEnd "expression") t.span)
    | _ => halt (.fault (.noExpression t.describe) t.span)

/-- A name with arguments in parentheses. -/
def call : Nat → Parser Call
  | 0 => halt .tooDeep
  | n + 1 => do
    let name ← expect .identifier "function name"
    let _ ← expect .leftParen "'('"
    let t ← peek
    let (positional, keywords) ←
      if t.kind = .rightParen then pure ([], []) else arguments n name [] []
    let _ ← expect .rightParen "',' or ')'"
    let span ← spanFrom name
    return .mk span name.name positional keywords

/-- Arguments after those already read, at least one more. -/
def arguments : Nat → Token → List Expr → List KeywordArgument →
    Parser (List Expr × List KeywordArgument)
  | 0, _, _, _ => halt .tooDeep
  | n + 1, function, positional, keywords => do
    let (positional, keywords) ← argument n function positional keywords
    let t ← peek
    if t.kind = .comma then do
      let _ ← advance
      arguments n function positional keywords
    else return (positional, keywords)

/-- One more argument. After a name, a sign of equality makes it a named one, and after a named one
no other is allowed. -/
def argument : Nat → Token → List Expr → List KeywordArgument →
    Parser (List Expr × List KeywordArgument)
  | 0, _, _, _ => halt .tooDeep
  | n + 1, function, positional, keywords => do
    let start ← peek
    let named ←
      if start.kind = .identifier then do
        let second ← peekSecond
        pure (second.kind = .assign : Bool)
      else pure false
    if named && !g.keywordArguments then
      halt (.fault (.unsupported "keyword argument" g.version) start.span)
    else if named then do
      let _ ← advance
      let _ ← advance
      let value ← expression n 1
      let span ← spanFrom start
      return (positional, keywords ++ [.mk span start.name value])
    else if keywords.isEmpty then do
      let value ← expression n 1
      return (positional ++ [value], keywords)
    else halt (.fault (.positionalAfterKeyword function.name) start.span)

end

/-! ## Statements -/

/-- The stretch of a construct is from a token to the last token read. -/
def closing (start : Token) (kind : TokenKind) (expected : String) : Parser Span := do
  let _ ← expect kind expected
  spanFrom start

/-- The kinds of tokens that end the body of a branch. -/
def branchEnds : List TokenKind := [.elseifWord, .elseWord, .endifWord]

/-- The expected ends of a block, as messages name them. -/
def endsText (ends : List TokenKind) : String :=
  " or ".intercalate (ends.map fun kind => s!"'{lowerAscii kind.name}'")

/-- A comment as a statement. -/
def commentStmt (t : Token) : Stmt :=
  .comment t.span t.name

/-- An assignment from its name on; `start` is its first token. -/
def assignment (n : Nat) (start : Token) (mode : AssignMode) : Parser Stmt := do
  let name ← expect .identifier "variable name"
  let _ ← expect .assign "'='"
  let value ← expression g n 1
  let span ← spanFrom start
  return .assign span mode name.name value

/-- The step of a counted loop, if it is given. -/
def loopStep (n : Nat) : Parser (Option Expr) := do
  let t ← peek
  if t.kind = .stepWord then do
    let _ ← advance
    let step ← expression g n 1
    return some step
  else return none

mutual

/-- Statements up to a token of one of the given kinds, which is left at hand. -/
def statements : Nat → List TokenKind → Parser (List Stmt)
  | 0, _ => halt .tooDeep
  | n + 1, ends => do
    let comments ← peekComments
    let t ← peek
    if t.kind ∈ ends then return comments.map commentStmt
    else if t.kind = .endOfInput then unexpected (endsText ends)
    else do
      let first ← statement n
      skipSemicolon
      let rest ← statements n ends
      return comments.map commentStmt ++ first :: rest

/-- A block up to a token of one of the given kinds, which is left at hand. -/
def block : Nat → List TokenKind → Parser Block
  | 0, _ => halt .tooDeep
  | n + 1, ends => do
    let start ← peek
    let body ← statements n ends
    let span ← spanFrom start
    return .mk span body

/-- A guarded part of a choice, after its first token. -/
def branch : Nat → Token → Parser Branch
  | 0, _ => halt .tooDeep
  | n + 1, start => do
    let condition ← expression g n 1
    let _ ← expect .thenWord "'then'"
    let body ← block n branchEnds
    let span ← spanFrom start
    return .mk span condition body

/-- The parts of a choice after the first one. -/
def furtherBranches : Nat → Parser (List Branch)
  | 0 => halt .tooDeep
  | n + 1 => do
    let t ← peek
    if t.kind = .elseifWord then do
      let start ← advance
      let first ← branch n start
      let rest ← furtherBranches n
      return first :: rest
    else return []

/-- The last part of a choice, if it has no guard. -/
def otherwise : Nat → Parser (Option Block)
  | 0 => halt .tooDeep
  | n + 1 => do
    let t ← peek
    if t.kind = .elseWord then do
      let start ← advance
      let body ← block n [.endifWord]
      let span ← spanFrom start
      return some (.mk span body.statements)
    else return none

/-- One statement. -/
def statement : Nat → Parser Stmt
  | 0 => halt .tooDeep
  | n + 1 => do
    let t ← peek
    match t.kind with
    | .ifWord => do
      let _ ← advance
      let first ← branch n t
      let rest ← furtherBranches n
      let last ← otherwise n
      let span ← closing t .endifWord "'endif'"
      return .choice span (first :: rest) last
    | .whileWord => do
      let _ ← advance
      if !g.loops then halt (.fault (.unsupported "while loop" g.version) t.span)
      else do
        let condition ← expression g n 1
        let _ ← expect .doWord "'do'"
        let body ← block n [.endwhileWord]
        let span ← closing t .endwhileWord "'endwhile'"
        return .whileLoop span condition body
    | .forWord => do
      let _ ← advance
      if !g.loops then halt (.fault (.unsupported "for loop" g.version) t.span)
      else do
        let counter ← expect .identifier "loop variable"
        let _ ← expect .assign "'='"
        let first ← expression g n 1
        let _ ← expect .toWord "'to'"
        let last ← expression g n 1
        let step ← loopStep g n
        let _ ← expect .doWord "'do'"
        let body ← block n [.endforWord]
        let span ← closing t .endforWord "'endfor'"
        return .forLoop span counter.name first last step body
    | .beginWord => do
      let _ ← advance
      let body ← block n [.endWord]
      let span ← closing t .endWord "'end'"
      return .block (.mk span body.statements)
    | .letWord => do
      let _ ← advance
      assignment g n t .bind
    | .setWord => do
      let _ ← advance
      assignment g n t .update
    | .returnWord => do
      let _ ← advance
      return .ret t.span
    | .identifier => do
      let second ← peekSecond
      if second.kind = .assign then assignment g n t .bind
      else if second.kind = .leftParen then do
        let c ← call g n
        return .call c
      else do
        let _ ← advance
        unexpected s!"'=' or '(' after '{t.lexeme}'"
    | _ => unexpected "statement"
end

/-- A whole script: a block and the end of the input. -/
def script (n : Nat) : Parser Block := do
  let body ← block g n [.endOfInput]
  let _ ← expect .endOfInput "end of input"
  return body

end Parser

/-! ## Whole scripts -/

/-- Why there is no tree. -/
inductive ParseError
  | script (error : ScriptError)
  /-- The tokens lack the one that ends the input. -/
  | noEnd
  /-- The bound on nested steps is used up. -/
  | tooDeep
  deriving DecidableEq, Repr

/-- What is said of tokens that lack the one that ends the input. -/
def noEndMessage : String := "token stream ended without an EOF token"

/-- The error that a fault at a token is. An unexpected end of the input shows no line. -/
def faultError (lines : List String) (fault : Fault) (span : Span) : ScriptError :=
  match fault with
  | .unexpectedEnd _ => ⟨fault, some span, none⟩
  | _ => ScriptError.withLine ⟨fault, some span, none⟩ lines

namespace Block

/-- A bound on nested steps that is enough for the given number of tokens. -/
def parseDepth (tokens : Nat) : Nat := 8 * (tokens + 2)

/-- The tree of a stream of tokens. Errors show lines of the given text. -/
def ofStream (g : Grammar) (lines : List String) (stream : TokenStream) :
    Except ParseError Block :=
  let items := groupComments [] stream.tokens
  match Parser.script g (parseDepth items.length) ⟨items, none⟩ with
  | .ok (body, _) => .ok body
  | .error (.fault fault span) => .error (.script (faultError lines fault span))
  | .error .noToken =>
    match stream.ending with
    | .failed error _ => .error (.script error)
    | .finished => .error .noEnd
  | .error .tooDeep => .error .tooDeep

/-- The tree of a script text. -/
def ofSource (g : Grammar) (source : Source) : Except ParseError Block :=
  ofStream g source.lines (TokenStream.ofSource g source)

end Block

end InstallScript
