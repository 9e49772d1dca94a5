import InstallScript.Tree.Parse

/-!
The grammar of scripts: which stretches of tokens are phrases of the language, and which tree each
of them stands for. Nothing here reads tokens one after another; a phrase is put together from
shorter phrases, and `Script` is what `Block.ofStream` is measured against.

Operators between operands come in five levels, from `or` to the multiplications, and group to the
left at each of them. A sixth level holds the operands, with the signs in front of them.

Tokens come as items, each with the comments before it. Comments count where a statement begins or a
block ends, and nowhere else.
-/

namespace InstallScript

/-- The kind of an item is that of its token. -/
abbrev Item.kind (item : Item) : TokenKind := item.token.kind

/-- A token without comments before it. -/
def Item.plain (t : Token) : Item := ⟨[], t⟩

/-! ## Stretches -/

/-- The last token of a stretch, or the one before the stretch if it is empty. -/
def lastToken (before : Option Token) (items : List Item) : Option Token :=
  (items.getLast?.map Item.token).or before

/-- From a token to the end of a stretch behind it. -/
def Token.through (start : Token) (before : Option Token) (items : List Item) : Span :=
  start.span.upTo ((lastToken before items).getD start).span

/-- The stretch of a block: from its first token, or the one that closes it if it is empty, to its
last one, or the one before it. -/
def blockSpan (before : Option Token) (body : List Item) (closing : Item) : Span :=
  ((body.head?.getD closing).token).through before body

namespace Phrase

/-! ## Expressions -/

/-- The kinds of the tokens that are literals. -/
def literalKinds : List TokenKind := [.numberLiteral, .stringLiteral, .boolLiteral]

variable (g : Grammar)

mutual

/-- An expression whose operators between operands bind at least as tightly as a level. -/
inductive Expression : Nat → List Item → Expr → Prop
  | binary {level : Nat} {o : BinaryOperator} {sign : Item} {ls rs : List Item} {a b : Expr}
      (tightness : o.precedence = level) (signKind : sign.kind = o.kind)
      (left : Expression level ls a) (right : Expression (level + 1) rs b) :
      Expression level (ls ++ sign :: rs) (.binary (a.span.upTo b.span) o a b)
  | tighter {level : Nat} {ts : List Item} {e : Expr} (bound : level < UnaryOperator.precedence)
      (inner : Expression (level + 1) ts e) : Expression level ts e
  | operand {ts : List Item} {e : Expr} (inner : Operand ts e) :
      Expression UnaryOperator.precedence ts e

/-- An operand, with the signs in front of it. Parentheses leave no trace. -/
inductive Operand : List Item → Expr → Prop
  | unary {o : UnaryOperator} {sign : Item} {ts : List Item} {e : Expr}
      (signKind : sign.kind = o.kind) (inner : Operand ts e) :
      Operand (sign :: ts) (.unary (sign.token.span.upTo e.span) o e)
  | literal {item : Item} (kind : item.kind ∈ literalKinds) :
      Operand [item] (.literal item.token.span (Parser.literalOf item.token))
  | variable {item : Item} (kind : item.kind = .identifier) :
      Operand [item] (.var item.token.span item.token.name)
  | call {ts : List Item} {c : Call} (inner : FunctionCall ts c) : Operand ts (.call c)
  | parentheses {opening closing : Item} {ts : List Item} {e : Expr}
      (openingKind : opening.kind = .leftParen) (closingKind : closing.kind = .rightParen)
      (inner : Expression 1 ts e) : Operand (opening :: (ts ++ [closing])) e

/-- A call of a function. -/
inductive FunctionCall : List Item → Call → Prop
  | bare {name opening closing : Item} (nameKind : name.kind = .identifier)
      (openingKind : opening.kind = .leftParen) (closingKind : closing.kind = .rightParen) :
      FunctionCall [name, opening, closing]
        (.mk (name.token.through none [opening, closing]) name.token.name [] [])
  | applied {name opening closing : Item} {ts : List Item} {positional : List Expr}
      {keywords : List KeywordArgument} (nameKind : name.kind = .identifier)
      (openingKind : opening.kind = .leftParen) (closingKind : closing.kind = .rightParen)
      (inner : Arguments ts positional keywords) :
      FunctionCall (name :: opening :: (ts ++ [closing]))
        (.mk (name.token.through none (opening :: (ts ++ [closing]))) name.token.name positional
          keywords)

/-- Arguments with commas between them, at least one. Those that are given by name come last. -/
inductive Arguments : List Item → List Expr → List KeywordArgument → Prop
  | lastPositional {ts : List Item} {e : Expr} (argument : Expression 1 ts e) : Arguments ts [e] []
  | lastNamed {ts : List Item} {k : KeywordArgument} (argument : Named ts k) : Arguments ts [] [k]
  | positional {comma : Item} {ts us : List Item} {e : Expr} {es : List Expr}
      {ks : List KeywordArgument} (commaKind : comma.kind = .comma)
      (argument : Expression 1 ts e) (others : Arguments us es ks) :
      Arguments (ts ++ comma :: us) (e :: es) ks
  | named {comma : Item} {ts us : List Item} {k : KeywordArgument} {ks : List KeywordArgument}
      (commaKind : comma.kind = .comma) (argument : Named ts k) (others : Arguments us [] ks) :
      Arguments (ts ++ comma :: us) [] (k :: ks)

/-- An argument that is given by name, where the language has such arguments. -/
inductive Named : List Item → KeywordArgument → Prop
  | mk {name sign : Item} {ts : List Item} {e : Expr} (allowed : g.keywordArguments = true)
      (nameKind : name.kind = .identifier) (signKind : sign.kind = .assign)
      (value : Expression 1 ts e) :
      Named (name :: sign :: ts)
        (.mk (name.token.through none (sign :: ts)) name.token.name e)

end

/-! ## Statements -/

/-- At most one semicolon. -/
inductive Separator : List Item → Prop
  | none : Separator []
  | semicolon {item : Item} (kind : item.kind = .semicolon) : Separator [item]

/-- The step of a counted loop, if it is given. -/
inductive LoopStep : List Item → Option Expr → Prop
  | none : LoopStep [] none
  | given {word : Item} {ts : List Item} {e : Expr} (wordKind : word.kind = .stepWord)
      (value : Expression g 1 ts e) : LoopStep (word :: ts) (some e)

/-- An assignment from the name of its variable on. -/
inductive Target : List Item → String → Expr → Prop
  | mk {name sign : Item} {ts : List Item} {e : Expr} (nameKind : name.kind = .identifier)
      (signKind : sign.kind = .assign) (value : Expression g 1 ts e) :
      Target (name :: sign :: ts) name.token.name e

mutual

/-- A statement. -/
inductive Statement : List Item → Stmt → Prop
  | assign {first : Item} {ts : List Item} {name : String} {e : Expr}
      (target : Target g (first :: ts) name e) :
      Statement (first :: ts) (.assign (first.token.through none ts) .bind name e)
  | letAssign {word : Item} {ts : List Item} {name : String} {e : Expr}
      (wordKind : word.kind = .letWord) (target : Target g ts name e) :
      Statement (word :: ts) (.assign (word.token.through none ts) .bind name e)
  | setAssign {word : Item} {ts : List Item} {name : String} {e : Expr}
      (wordKind : word.kind = .setWord) (target : Target g ts name e) :
      Statement (word :: ts) (.assign (word.token.through none ts) .update name e)
  | call {ts : List Item} {c : Call} (inner : FunctionCall g ts c) : Statement ts (.call c)
  | choice {word closing : Item} {ts us : List Item} {b : Branch} {bs : List Branch}
      {otherwise : Option Block} (wordKind : word.kind = .ifWord)
      (first : Guarded word ts closing b) (others : Alternatives (closing :: us) bs otherwise) :
      Statement (word :: (ts ++ closing :: us))
        (.choice (word.token.through none (ts ++ closing :: us)) (b :: bs) otherwise)
  | whileLoop {word doWord closing : Item} {cs body : List Item} {condition : Expr} {b : Block}
      (allowed : g.loops = true) (wordKind : word.kind = .whileWord)
      (test : Expression g 1 cs condition) (doKind : doWord.kind = .doWord)
      (inner : Body (some doWord.token) body closing b)
      (closingKind : closing.kind = .endwhileWord) :
      Statement (word :: (cs ++ doWord :: (body ++ [closing])))
        (.whileLoop (word.token.through none (cs ++ doWord :: (body ++ [closing]))) condition b)
  | forLoop {word counter sign toWord doWord closing : Item} {fs ls ss body : List Item}
      {first last : Expr} {step : Option Expr} {b : Block}
      (allowed : g.loops = true) (wordKind : word.kind = .forWord)
      (counterKind : counter.kind = .identifier) (signKind : sign.kind = .assign)
      (start : Expression g 1 fs first) (toKind : toWord.kind = .toWord)
      (stop : Expression g 1 ls last) (increment : LoopStep g ss step)
      (doKind : doWord.kind = .doWord) (inner : Body (some doWord.token) body closing b)
      (closingKind : closing.kind = .endforWord) :
      Statement
        (word :: counter :: sign :: (fs ++ toWord :: (ls ++ (ss ++ doWord :: (body ++ [closing])))))
        (.forLoop
          (word.token.through none
            (counter :: sign :: (fs ++ toWord :: (ls ++ (ss ++ doWord :: (body ++ [closing]))))))
          counter.token.name first last step b)
  | block {word closing : Item} {body : List Item} {ss : List Stmt}
      (wordKind : word.kind = .beginWord) (inner : Statements body closing ss)
      (closingKind : closing.kind = .endWord) :
      Statement (word :: (body ++ [closing]))
        (.block (.mk (word.token.through none (body ++ [closing])) ss))
  | ret {word : Item} (wordKind : word.kind = .returnWord) : Statement [word] (.ret word.token.span)

/-- Statements up to a closing token, which is not one of theirs, each with at most one semicolon
after it. -/
inductive Statements : List Item → Item → List Stmt → Prop
  | nil {closing : Item} : Statements [] closing (closing.comments.map Parser.commentStmt)
  | cons {first closing : Item} {ts separator us : List Item} {s : Stmt} {ss : List Stmt}
      (statement : Statement (first :: ts) s) (separated : Separator separator)
      (others : Statements us closing ss) :
      Statements (first :: (ts ++ (separator ++ us))) closing
        (first.comments.map Parser.commentStmt ++ s :: ss)

/-- The body of a block between the token before it and the one that closes it. -/
inductive Body : Option Token → List Item → Item → Block → Prop
  | mk {before : Option Token} {ts : List Item} {closing : Item} {ss : List Stmt}
      (inner : Statements ts closing ss) :
      Body before ts closing (.mk (blockSpan before ts closing) ss)

/-- A guarded part of a choice after the word in front of its guard, up to a closing token. -/
inductive Guarded : Item → List Item → Item → Branch → Prop
  | mk {word thenWord closing : Item} {cs body : List Item} {condition : Expr} {b : Block}
      (test : Expression g 1 cs condition) (thenKind : thenWord.kind = .thenWord)
      (inner : Body (some thenWord.token) body closing b) :
      Guarded word (cs ++ thenWord :: body) closing
        (.mk (word.token.through none (cs ++ thenWord :: body)) condition b)

/-- What follows the first guarded part of a choice, up to its last word. -/
inductive Alternatives : List Item → List Branch → Option Block → Prop
  | done {closing : Item} (closingKind : closing.kind = .endifWord) :
      Alternatives [closing] [] none
  | otherwise {word closing : Item} {body : List Item} {ss : List Stmt}
      (wordKind : word.kind = .elseWord) (inner : Statements body closing ss)
      (closingKind : closing.kind = .endifWord) :
      Alternatives (word :: (body ++ [closing])) []
        (some (.mk (word.token.through none body) ss))
  | guarded {word closing : Item} {ts us : List Item} {b : Branch} {bs : List Branch}
      {otherwise : Option Block} (wordKind : word.kind = .elseifWord)
      (first : Guarded word ts closing b) (others : Alternatives (closing :: us) bs otherwise) :
      Alternatives (word :: (ts ++ closing :: us)) (b :: bs) otherwise

end

/-- A whole script: statements up to the end of the input. -/
inductive Script : List Item → Block → Prop
  | mk {body : List Item} {closing : Item} {b : Block} (inner : Body g none body closing b)
      (closingKind : closing.kind = .endOfInput) : Script (body ++ [closing]) b

end Phrase

end InstallScript
