import InstallScript.Proofs.Syntax.Bare
import InstallScript.Proofs.Syntax.Sound

/-!
From the tokens of a tree back to the tree. Items whose tokens are those of an expression derive it,
but for its stretches (`Expr.derived`): where the printed text has parentheses, the grammar asks for
them, and where it has none, the operators group by themselves. For statements the comments are
among the tokens, and go to the item behind them (`stmts_derived`).
-/

namespace InstallScript

/-! ## Marks of tokens and items -/

/-- The mark of an item is that of its token. -/
def Item.mark (item : Item) : Mark := item.token.mark

theorem Token.kind_of_mark {t : Token} {m : Mark} (eq : t.mark = m) : t.kind = m.kind :=
  congrArg Mark.kind eq

theorem Token.plain_of_mark {t : Token} {m : Mark} (eq : t.mark = m) (plain : m.kind ≠ .comment) :
    t.kind ≠ .comment := by
  rwa [Token.kind_of_mark eq]

theorem Token.value_of_mark {t : Token} {kind : TokenKind} {value : TokenValue}
    (eq : t.mark = .of kind value) (valued : kind ∈ valuedKinds) : t.value = value := by
  have kindEq : t.kind = kind := Token.kind_of_mark eq
  have valueEq := congrArg Mark.value eq
  simp only [Token.mark, Mark.of, kindEq, if_pos valued] at valueEq
  exact valueEq

theorem Token.name_of_mark {t : Token} {kind : TokenKind} {name : String}
    (eq : t.mark = .of kind (.text name)) (valued : kind ∈ valuedKinds) : t.name = name := by
  rw [Token.name, Token.value_of_mark eq valued]

theorem Literal.of_mark {t : Token} {value : Literal} (eq : t.mark = value.mark) :
    t.kind ∈ Phrase.literalKinds ∧ Parser.literalOf t = value := by
  rw [Parser.literalOf]
  cases value with
  | number n =>
    rw [Token.value_of_mark eq (by decide), Token.kind_of_mark eq]
    exact ⟨List.mem_cons_self, rfl⟩
  | string s =>
    rw [Token.value_of_mark eq (by decide), Token.kind_of_mark eq]
    exact ⟨List.mem_cons_of_mem _ List.mem_cons_self, rfl⟩
  | bool b =>
    rw [Token.value_of_mark eq (by decide), Token.kind_of_mark eq]
    exact ⟨List.mem_cons_of_mem _ (List.mem_cons_of_mem _ List.mem_cons_self), rfl⟩

section

variable {g : Grammar}

/-! ## Expressions -/

/-- Items that are an expression whose operators bind at least as tightly as a level; above the
levels of the operators it is an operand. -/
def Phrase.Bound (g : Grammar) (least : Nat) (items : List Item) (e : Expr) : Prop :=
  if least < UnaryOperator.precedence then Phrase.Expression g least items e
  else Phrase.Operand g items e

namespace Phrase

theorem Bound.of_operand {items : List Item} {e : Expr} (operand : Operand g items e)
    (least : Nat) :
    Bound g least items e := by
  unfold Bound
  split
  · exact (Expression.operand operand).lower le_rfl (by omega)
  · exact operand

theorem Bound.expression {least level : Nat} {items : List Item} {e : Expr}
    (bound : Bound g level items e) (le : least ≤ level)
    (small : least ≤ UnaryOperator.precedence) :
    Expression g least items e := by
  unfold Bound at bound
  split at bound
  · exact bound.lower (by omega) le
  · exact (Expression.operand bound).lower le_rfl small

theorem Bound.operand {level : Nat} {items : List Item} {e : Expr} (bound : Bound g level items e)
    (le : UnaryOperator.precedence ≤ level) : Operand g items e := by
  unfold Bound at bound
  rwa [if_neg (by omega)] at bound

theorem Bound.lower {least level : Nat} {items : List Item} {e : Expr}
    (bound : Bound g level items e) (le : least ≤ level) : Bound g least items e := by
  by_cases high : UnaryOperator.precedence ≤ level
  · exact .of_operand (bound.operand high) least
  · have expression : Expression g least items e := bound.expression le (by omega)
    unfold Bound
    rwa [if_pos (by omega)]

end Phrase

theorem Expr.one_le_tightness (e : Expr) : 1 ≤ e.tightness := by
  cases e with
  | binary _ o _ _ => exact o.one_le_precedence
  | _ => exact Nat.succ_pos _

/-- Parentheses make an operand of an expression that does not hold together tightly enough. -/
theorem derived_enclosed {e : Expr} {ms : List Mark}
    (inner : ∀ items : List Item, items.map Item.mark = ms →
      ∃ e', Phrase.Bound g e.tightness items e' ∧ e'.bare = e.bare)
    {least : Nat} {items : List Item}
    (marks : items.map Item.mark = enclosed e.tightness least ms) :
    ∃ e', Phrase.Bound g least items e' ∧ e'.bare = e.bare := by
  unfold enclosed at marks
  split at marks
  · obtain ⟨opening, rest, rfl, openingMark, marks⟩ := List.map_eq_cons_iff.1 marks
    obtain ⟨inside, last, rfl, insideMarks, marks⟩ := List.map_eq_append_iff.1 marks
    obtain ⟨closing, rfl, closingMark⟩ := List.map_eq_singleton_iff.1 marks
    obtain ⟨e', bound, bare⟩ := inner inside insideMarks
    have expression := bound.expression e.one_le_tightness (by decide)
    exact ⟨e', .of_operand (.parentheses (Token.kind_of_mark openingMark)
      (Token.kind_of_mark closingMark) expression) least, bare⟩
  · obtain ⟨e', bound, bare⟩ := inner items marks
    exact ⟨e', bound.lower (by omega), bare⟩

/-- Items between commas: the first of them, and those behind the comma. -/
theorem split_intercalate {items : List Item} {ms : List Mark} {groups : List (List Mark)}
    (marks : items.map Item.mark = [.word .comma].intercalate (ms :: groups)) :
    (groups = [] ∧ items.map Item.mark = ms) ∨
      (groups ≠ [] ∧ ∃ first comma rest, items = first ++ comma :: rest ∧
        first.map Item.mark = ms ∧ comma.kind = .comma ∧
        rest.map Item.mark = [.word .comma].intercalate groups) := by
  cases groups with
  | nil =>
    rw [List.intercalate_singleton] at marks
    exact .inl ⟨rfl, marks⟩
  | cons ms' groups =>
    rw [List.intercalate_cons_cons, List.append_assoc] at marks
    obtain ⟨first, others, rfl, firstMarks, marks⟩ := List.map_eq_append_iff.1 marks
    obtain ⟨comma, rest, rfl, commaMark, marks⟩ := List.map_eq_cons_iff.1 marks
    exact .inr ⟨nofun, first, comma, rest, rfl, firstMarks, Token.kind_of_mark commaMark, marks⟩

theorem exprMarks_eq_nil {es : List Expr} : exprMarks es = [] ↔ es = [] := by
  cases es with
  | nil => exact ⟨fun _ => rfl, fun _ => rfl⟩
  | cons e es => exact ⟨nofun, nofun⟩

theorem keywordMarks_eq_nil {ks : List KeywordArgument} : keywordMarks ks = [] ↔ ks = [] := by
  cases ks with
  | nil => exact ⟨fun _ => rfl, fun _ => rfl⟩
  | cons k ks =>
    cases k
    exact ⟨nofun, nofun⟩

mutual

/-- Items whose tokens are those of an expression derive it. -/
theorem Expr.derived : ∀ (e : Expr) (items : List Item), e.Writable g →
    items.map Item.mark = e.marks → ∃ e', Phrase.Bound g e.tightness items e' ∧ e'.bare = e.bare
  | .literal _ value, items, _, marks => by
    obtain ⟨item, rfl, mark⟩ := List.map_eq_singleton_iff.1 marks
    obtain ⟨kind, eq⟩ := Literal.of_mark mark
    refine ⟨_, .of_operand (.literal kind) _, ?_⟩
    rw [Expr.bare, Expr.bare, eq]
  | .var _ name, items, _, marks => by
    obtain ⟨item, rfl, mark⟩ := List.map_eq_singleton_iff.1 marks
    refine ⟨_, .of_operand (.variable (Token.kind_of_mark mark)) _, ?_⟩
    rw [Expr.bare, Expr.bare, Token.name_of_mark mark (by decide)]
  | .call c, items, writable, marks => by
    obtain ⟨c', phrase, bare⟩ := Call.derived c items writable marks
    refine ⟨_, .of_operand (.call phrase) _, ?_⟩
    rw [Expr.bare, Expr.bare, bare]
  | .unary _ o e, items, writable, marks => by
    obtain ⟨sign, rest, rfl, signMark, marks⟩ := List.map_eq_cons_iff.1 marks
    obtain ⟨e', bound, bare⟩ := derived_enclosed (fun items => Expr.derived e items writable) marks
    refine ⟨_, .of_operand (.unary (Token.kind_of_mark signMark) (bound.operand le_rfl)) _, ?_⟩
    rw [Expr.bare, Expr.bare, bare]
  | .binary _ o a b, items, ⟨leftOk, rightOk⟩, marks => by
    obtain ⟨ls, rest, rfl, leftMarks, marks⟩ := List.map_eq_append_iff.1 marks
    obtain ⟨sign, rs, rfl, signMark, rightMarks⟩ := List.map_eq_cons_iff.1 marks
    obtain ⟨a', left, leftBare⟩ := derived_enclosed (fun items => Expr.derived a items leftOk)
      leftMarks
    obtain ⟨b', right, rightBare⟩ :=
      derived_enclosed (fun items => Expr.derived b items rightOk) rightMarks
    have small := o.precedence_lt
    have whole : Phrase.Expression g o.precedence (ls ++ sign :: rs)
        (.binary (a'.span.upTo b'.span) o a' b') :=
      .binary rfl (Token.kind_of_mark signMark) (left.expression le_rfl (by omega))
        (right.expression le_rfl (by omega))
    refine ⟨.binary (a'.span.upTo b'.span) o a' b', ?_, ?_⟩
    · rw [Expr.tightness, Phrase.Bound, if_pos small]
      exact whole
    · rw [Expr.bare, Expr.bare, leftBare, rightBare]

theorem Call.derived : ∀ (c : Call) (items : List Item), c.Writable g →
    items.map Item.mark = c.marks → ∃ c', Phrase.FunctionCall g items c' ∧ c'.bare = c.bare
  | .mk _ name arguments keywords, items, ⟨_, argumentsOk, keywordsOk⟩, marks => by
    obtain ⟨nameItem, rest, rfl, nameMark, marks⟩ := List.map_eq_cons_iff.1 marks
    obtain ⟨opening, rest, rfl, openingMark, marks⟩ := List.map_eq_cons_iff.1 marks
    obtain ⟨inside, last, rfl, insideMarks, marks⟩ := List.map_eq_append_iff.1 marks
    obtain ⟨closing, rfl, closingMark⟩ := List.map_eq_singleton_iff.1 marks
    have nameEq : nameItem.token.name = name := Token.name_of_mark nameMark (by decide)
    by_cases empty : arguments = [] ∧ keywords = []
    · obtain ⟨rfl, rfl⟩ := empty
      obtain rfl := List.map_eq_nil_iff.1 insideMarks
      refine ⟨_, .bare (Token.kind_of_mark nameMark) (Token.kind_of_mark openingMark)
        (Token.kind_of_mark closingMark), ?_⟩
      rw [Call.bare, Call.bare, nameEq]
    · obtain ⟨arguments', keywords', phrase, positional, named⟩ :=
        exprs_derived arguments keywords argumentsOk
          (fun items => keywords_derived keywords items keywordsOk) inside empty insideMarks
      refine ⟨_, .applied (Token.kind_of_mark nameMark) (Token.kind_of_mark openingMark)
        (Token.kind_of_mark closingMark) phrase, ?_⟩
      rw [Call.bare, Call.bare, nameEq, positional, named]

theorem exprs_derived : ∀ (es : List Expr) (ks : List KeywordArgument), exprsWritable g es →
    (∀ items : List Item, ks ≠ [] →
      items.map Item.mark = [.word .comma].intercalate (keywordMarks ks) →
      ∃ ks', Phrase.Arguments g items [] ks' ∧ bareKeywords ks' = bareKeywords ks) →
    ∀ items : List Item, ¬ (es = [] ∧ ks = []) →
      items.map Item.mark = [.word .comma].intercalate (exprMarks es ++ keywordMarks ks) →
      ∃ es' ks', Phrase.Arguments g items es' ks' ∧ bareExprs es' = bareExprs es ∧
        bareKeywords ks' = bareKeywords ks
  | [], ks, _, named, items, nonempty, marks => by
    obtain ⟨ks', phrase, bare⟩ := named items (fun empty => nonempty ⟨rfl, empty⟩) marks
    exact ⟨[], ks', phrase, rfl, bare⟩
  | e :: es, ks, ⟨writable, othersOk⟩, named, items, _, marks => by
    rw [exprMarks, List.cons_append] at marks
    rcases split_intercalate marks with
      ⟨none, alone⟩ | ⟨some, first, comma, rest, rfl, firstMarks, kind, behind⟩
    · obtain ⟨noExprs, noKeywords⟩ := List.append_eq_nil_iff.1 none
      obtain rfl := exprMarks_eq_nil.1 noExprs
      obtain rfl := keywordMarks_eq_nil.1 noKeywords
      obtain ⟨e', bound, bare⟩ := Expr.derived e items writable alone
      have argument := bound.expression e.one_le_tightness (by decide)
      exact ⟨[e'], [], .lastPositional argument, congrArg (· :: []) bare, rfl⟩
    · obtain ⟨e', bound, bare⟩ := Expr.derived e first writable firstMarks
      have argument := bound.expression e.one_le_tightness (by decide)
      have more : ¬ (es = [] ∧ ks = []) := by
        rintro ⟨rfl, rfl⟩
        exact some rfl
      obtain ⟨es', ks', others, positionalBare, namedBare⟩ :=
        exprs_derived es ks othersOk named rest more behind
      refine ⟨e' :: es', ks', .positional kind argument others, ?_, namedBare⟩
      rw [bareExprs, bareExprs, bare, positionalBare]

theorem keywords_derived : ∀ (ks : List KeywordArgument) (items : List Item),
    keywordsWritable g ks →
    ks ≠ [] → items.map Item.mark = [.word .comma].intercalate (keywordMarks ks) →
      ∃ ks', Phrase.Arguments g items [] ks' ∧ bareKeywords ks' = bareKeywords ks
  | [], _, _, nonempty, _ => absurd rfl nonempty
  | .mk _ name value :: ks, items, ⟨allowed, _, writable, othersOk⟩, _, marks => by
    have argument {first : List Item} (firstMarks : first.map Item.mark =
        .of .identifier (.text name) :: .word .assign :: value.marks) :
        ∃ span value', Phrase.Named g first (.mk span name value') ∧ value'.bare = value.bare := by
      obtain ⟨nameItem, rest, rfl, nameMark, rest'⟩ := List.map_eq_cons_iff.1 firstMarks
      obtain ⟨sign, inside, rfl, signMark, insideMarks⟩ := List.map_eq_cons_iff.1 rest'
      obtain ⟨e', bound, bare⟩ := Expr.derived value inside writable insideMarks
      have phrase : Phrase.Named g (nameItem :: sign :: inside) _ :=
        .mk allowed (Token.kind_of_mark nameMark) (Token.kind_of_mark signMark)
          (bound.expression value.one_le_tightness (by decide))
      rw [Token.name_of_mark nameMark (by decide)] at phrase
      exact ⟨_, e', phrase, bare⟩
    rw [keywordMarks] at marks
    rcases split_intercalate marks with
      ⟨none, alone⟩ | ⟨some, first, comma, rest, rfl, firstMarks, kind, behind⟩
    · obtain rfl := keywordMarks_eq_nil.1 none
      obtain ⟨span, value', phrase, bare⟩ := argument alone
      refine ⟨_, .lastNamed phrase, ?_⟩
      simp only [bareKeywords, bare]
    · obtain ⟨span, value', phrase, bare⟩ := argument firstMarks
      have more : ks ≠ [] := by
        rintro rfl
        exact some rfl
      obtain ⟨ks', others, othersBare⟩ := keywords_derived ks rest othersOk more behind
      refine ⟨_, .named kind phrase others, ?_⟩
      rw [bareKeywords, bareKeywords, bare, othersBare]

end

/-! ## Comments -/

/-- No comments are among the tokens. -/
def Plain (ms : List Mark) : Prop := ∀ m ∈ ms, m.kind ≠ .comment

theorem Plain.cons {m : Mark} {ms : List Mark} (head : m.kind ≠ .comment) (tail : Plain ms) :
    Plain (m :: ms) :=
  List.forall_mem_cons.2 ⟨head, tail⟩

theorem Plain.append {ms ns : List Mark} (left : Plain ms) (right : Plain ns) : Plain (ms ++ ns) :=
  List.forall_mem_append.2 ⟨left, right⟩

theorem Plain.single {m : Mark} (head : m.kind ≠ .comment) : Plain [m] :=
  .cons head fun _ member => nomatch member

theorem Plain.enclosed {ms : List Mark} (plain : Plain ms) (tightness least : Nat) :
    Plain (enclosed tightness least ms) := by
  unfold InstallScript.enclosed
  split
  · exact .cons nofun (plain.append (.single nofun))
  · exact plain

theorem Plain.intercalate {groups : List (List Mark)} (plain : ∀ ms ∈ groups, Plain ms) :
    Plain ([.word .comma].intercalate groups) := by
  induction groups with
  | nil => intro m member; cases member
  | cons ms groups ih =>
    obtain ⟨first, others⟩ := List.forall_mem_cons.1 plain
    cases groups with
    | nil =>
      rw [List.intercalate_singleton]
      exact first
    | cons ms' groups =>
      rw [List.intercalate_cons_cons]
      have comma : Plain [.word .comma] := .single nofun
      exact (first.append comma).append (ih others)

mutual

theorem Expr.marks_plain : ∀ e : Expr, Plain e.marks
  | .literal _ value => by cases value <;> exact .single nofun
  | .var _ _ => .single nofun
  | .call c => Call.marks_plain c
  | .unary _ o e => by
    have sign : o.kind ≠ .comment := by cases o <;> nofun
    exact .cons sign ((Expr.marks_plain e).enclosed _ _)
  | .binary _ o a b => by
    have sign : o.kind ≠ .comment := by cases o <;> nofun
    exact ((Expr.marks_plain a).enclosed _ _).append
      (.cons sign ((Expr.marks_plain b).enclosed _ _))

theorem Call.marks_plain : ∀ c : Call, Plain c.marks
  | .mk _ _ arguments keywords => by
    have groups : ∀ ms ∈ exprMarks arguments ++ keywordMarks keywords, Plain ms :=
      List.forall_mem_append.2 ⟨exprMarks_plain arguments, keywordMarks_plain keywords⟩
    exact .cons nofun (.cons nofun ((Plain.intercalate groups).append (.single nofun)))

theorem exprMarks_plain : ∀ es : List Expr, ∀ ms ∈ exprMarks es, Plain ms
  | [] => nofun
  | e :: es => List.forall_mem_cons.2 ⟨Expr.marks_plain e, exprMarks_plain es⟩

theorem keywordMarks_plain : ∀ ks : List KeywordArgument, ∀ ms ∈ keywordMarks ks, Plain ms
  | [] => nofun
  | .mk _ _ value :: ks => List.forall_mem_cons.2
      ⟨.cons nofun (.cons nofun (Expr.marks_plain value)), keywordMarks_plain ks⟩

end

/-- Tokens behind some comments are some items, whatever comes behind them. The comments come last
first. -/
def Groups (comments ts : List Token) (items : List Item) : Prop :=
  ∀ rest, groupComments comments (ts ++ rest) = items ++ groupComments [] rest

theorem Groups.nil : Groups [] [] [] := fun _ => rfl

theorem Groups.cons {comments ts : List Token} {t : Token} {items : List Item}
    (noComment : t.kind ≠ .comment) (more : Groups [] ts items) :
    Groups comments (t :: ts) (⟨comments.reverse, t⟩ :: items) := by
  intro rest
  rw [List.cons_append, groupComments, if_neg noComment, more rest, List.cons_append]

theorem Groups.comment {comments ts : List Token} {t : Token} {items : List Item}
    (isComment : t.kind = .comment) (more : Groups (t :: comments) ts items) :
    Groups comments (t :: ts) items := by
  intro rest
  rw [List.cons_append, groupComments, if_pos isComment, more rest]

theorem Groups.append {comments ts us : List Token} {items items' : List Item}
    (first : Groups comments ts items) (second : Groups [] us items') :
    Groups comments (ts ++ us) (items ++ items') := by
  intro rest
  rw [List.append_assoc, first, second, List.append_assoc]

theorem Groups.plain {ts : List Token} {ms : List Mark} (marks : ts.map Token.mark = ms)
    (plain : Plain ms) : Groups [] ts (ts.map Item.plain) := by
  induction ts generalizing ms with
  | nil => exact .nil
  | cons t ts ih =>
    subst marks
    obtain ⟨head, tail⟩ := List.forall_mem_cons.1 plain
    exact .cons head (ih rfl tail)

/-- Tokens of an expression derive it. -/
theorem Expr.derived_tokens {e : Expr} {ts : List Token} (writable : e.Writable g)
    (marks : ts.map Token.mark = e.marks) : Groups [] ts (ts.map Item.plain) ∧
      ∃ e', Phrase.Expression g 1 (ts.map Item.plain) e' ∧ e'.bare = e.bare := by
  have itemMarks : (ts.map Item.plain).map Item.mark = e.marks := by
    rw [← marks, List.map_map]
    rfl
  obtain ⟨e', bound, bare⟩ := Expr.derived e _ writable itemMarks
  exact ⟨.plain marks e.marks_plain, e', bound.expression e.one_le_tightness (by decide), bare⟩

/-! ## Statements -/

/-- Tokens derive a statement, behind whatever comments. -/
def Stmt.DerivedFrom (g : Grammar) (s : Stmt) (ts : List Token) : Prop :=
  ∀ comments, ∃ first more s', Groups comments ts (first :: more) ∧
    first.comments = comments.reverse ∧ Phrase.Statement g (first :: more) s' ∧ s'.bare = s.bare

/-- Tokens derive what follows the first guarded part of a choice, behind whatever comments. -/
def AlternativesFrom (g : Grammar) (bs : List Branch) (otherwise : Option Block)
    (ts : List Token) : Prop :=
  ∃ word us items, ts = word :: us ∧ word.kind ≠ .comment ∧ Groups [] us items ∧
    ∀ comments, ∃ bs' otherwise', Phrase.Alternatives g (⟨comments, word⟩ :: items) bs' otherwise' ∧
      bareBranches bs' = bareBranches bs ∧ otherwise'.map Block.bare = otherwise.map Block.bare

/-- Tokens of some statements derive them up to a closing token. The comments before them become
statements. -/
def StatementsDerived (g : Grammar) (ss : List Stmt) : Prop :=
  ∀ (comments ts : List Token) (closing : Token), ts.map Token.mark = stmtMarks ss →
    closing.kind ≠ .comment → ∃ items behind ss', Groups comments (ts ++ [closing])
      (items ++ [⟨behind, closing⟩]) ∧ Phrase.Statements g items ⟨behind, closing⟩ ss' ∧
      bareStmts ss' = bareStmts (comments.reverse.map Parser.commentStmt) ++ bareStmts ss

/-- The tokens of an assignment from the name of its variable on. -/
theorem target_derived {name : String} {value : Expr} {ts : List Token}
    (writable : value.Writable g)
    (marks : ts.map Token.mark = .of .identifier (.text name) :: .word .assign :: value.marks) :
    ∃ nameToken more, ts = nameToken :: more ∧ nameToken.kind ≠ .comment ∧
      Groups [] more (more.map Item.plain) ∧ ∀ comments, ∃ value',
        Phrase.Target g (⟨comments, nameToken⟩ :: more.map Item.plain) name value' ∧
          value'.bare = value.bare := by
  obtain ⟨nameToken, rest, rfl, nameMark, marks⟩ := List.map_eq_cons_iff.1 marks
  obtain ⟨sign, inside, rfl, signMark, marks⟩ := List.map_eq_cons_iff.1 marks
  obtain ⟨groups, value', phrase, bare⟩ := Expr.derived_tokens writable marks
  have nameKind : nameToken.kind = .identifier := Token.kind_of_mark nameMark
  have signKind : sign.kind = .assign := Token.kind_of_mark signMark
  refine ⟨nameToken, sign :: inside, rfl, Token.plain_of_mark nameMark nofun,
    .cons (Token.plain_of_mark signMark nofun) groups, fun comments => ⟨value', ?_, bare⟩⟩
  have target : Phrase.Target g (⟨comments, nameToken⟩ :: .plain sign :: inside.map Item.plain)
      nameToken.name value' := .mk nameKind signKind phrase
  rwa [Token.name_of_mark nameMark (by decide)] at target

/-- The tokens of a call. -/
theorem call_derived {c : Call} {ts : List Token} (writable : c.Writable g)
    (marks : ts.map Token.mark = c.marks) :
    ∃ t more, ts = t :: more ∧ t.kind ≠ .comment ∧ Groups [] more (more.map Item.plain) ∧
      ∀ comments, ∃ c', Phrase.FunctionCall g (⟨comments, t⟩ :: more.map Item.plain) c' ∧
        c'.bare = c.bare := by
  have plain := c.marks_plain
  cases ts with
  | nil =>
    cases c
    cases marks
  | cons t more =>
    rw [← marks] at plain
    obtain ⟨head, tail⟩ := List.forall_mem_cons.1 plain
    refine ⟨t, more, rfl, head, .plain rfl tail, fun comments => Call.derived c _ writable ?_⟩
    rw [← marks, List.map_cons, List.map_map]
    rfl

/-- The tokens of the step of a counted loop. -/
theorem step_derived {step : Option Expr} {ts : List Token} (writable : stepWritable g step)
    (marks : ts.map Token.mark = stepMarks step) : Groups [] ts (ts.map Item.plain) ∧
      ∃ step', Phrase.LoopStep g (ts.map Item.plain) step' ∧
        step'.map Expr.bare = step.map Expr.bare := by
  cases step with
  | none =>
    obtain rfl := List.map_eq_nil_iff.1 marks
    exact ⟨.nil, none, .none, rfl⟩
  | some e =>
    obtain ⟨word, inside, rfl, wordMark, insideMarks⟩ := List.map_eq_cons_iff.1 marks
    obtain ⟨groups, e', phrase, bare⟩ := Expr.derived_tokens writable insideMarks
    exact ⟨.cons (Token.plain_of_mark wordMark nofun) groups, some e',
      .given (Token.kind_of_mark wordMark) phrase, congrArg some bare⟩

/-- A block and the word that closes it. -/
theorem closed_derived {b : Block} (inner : StatementsDerived g b.statements) {ts : List Token}
    {kind : TokenKind} (marks : ts.map Token.mark = b.marks ++ [.word kind])
    (plain : kind ≠ .comment) :
    ∃ items closing ss, Groups [] ts (items ++ [closing]) ∧ closing.kind = kind ∧
      Phrase.Statements g items closing ss ∧ Block.mk default (bareStmts ss) = b.bare := by
  obtain ⟨span, statements⟩ := b
  obtain ⟨inside, last, rfl, insideMarks, lastMarks⟩ := List.map_eq_append_iff.1 marks
  obtain ⟨closing, rfl, closingMark⟩ := List.map_eq_singleton_iff.1 lastMarks
  obtain ⟨items, behind, ss, groups, phrase, bare⟩ :=
    inner [] inside closing insideMarks (Token.plain_of_mark closingMark plain)
  exact ⟨items, _, ss, groups, Token.kind_of_mark closingMark, phrase,
    congrArg (Block.mk default) bare⟩

/-- The end of a choice without a last part. -/
theorem last_derived (ts : List Token) (marks : ts.map Token.mark = [.word .endifWord]) :
    AlternativesFrom g [] none ts := by
  obtain ⟨word, rfl, mark⟩ := List.map_eq_singleton_iff.1 marks
  exact ⟨word, [], [], rfl, Token.plain_of_mark mark nofun, .nil, fun _ =>
    ⟨[], none, .done (Token.kind_of_mark mark), rfl, rfl⟩⟩

/-- The last part of a choice. -/
theorem otherwise_derived {b : Block} (inner : StatementsDerived g b.statements) (ts : List Token)
    (marks : ts.map Token.mark = .word .elseWord :: (b.marks ++ [.word .endifWord])) :
    AlternativesFrom g [] (some b) ts := by
  obtain ⟨word, us, rfl, wordMark, afterWord⟩ := List.map_eq_cons_iff.1 marks
  obtain ⟨items, closing, ss, groups, closingKind, phrase, bare⟩ :=
    closed_derived inner afterWord nofun
  exact ⟨word, us, _, rfl, Token.plain_of_mark wordMark nofun, groups, fun _ =>
    ⟨[], _, .otherwise (Token.kind_of_mark wordMark) phrase closingKind, rfl, congrArg some bare⟩⟩

/-- A guarded part of a choice, with what follows it. -/
theorem guarded_derived {condition : Expr} {body : Block} {bs : List Branch} {tail : List Mark}
    {otherwise : Option Block} {span : Span} {ts : List Token} (test : condition.Writable g)
    (inner : StatementsDerived g body.statements)
    (others : ∀ ts : List Token, ts.map Token.mark = tail → AlternativesFrom g bs otherwise ts)
    (marks : ts.map Token.mark =
      condition.marks ++ .word .thenWord :: (body.marks ++ tail)) :
    ∃ items closing us, Groups [] ts (items ++ closing :: us) ∧ ∀ word, ∃ b' bs' otherwise',
      Phrase.Guarded g word items closing b' ∧
      Phrase.Alternatives g (closing :: us) bs' otherwise' ∧
      bareBranches (b' :: bs') = bareBranches (.mk span condition body :: bs) ∧
      otherwise'.map Block.bare = otherwise.map Block.bare := by
  obtain ⟨bodySpan, statements⟩ := body
  obtain ⟨tests, rest, rfl, testMarks, marks⟩ := List.map_eq_append_iff.1 marks
  obtain ⟨thenToken, rest, rfl, thenMark, marks⟩ := List.map_eq_cons_iff.1 marks
  obtain ⟨body', rest, rfl, bodyMarks, marks⟩ := List.map_eq_append_iff.1 marks
  obtain ⟨testGroups, condition', testPhrase, testBare⟩ := Expr.derived_tokens test testMarks
  obtain ⟨closing, us, items, rfl, closingKind, groups, alternatives⟩ := others rest marks
  obtain ⟨bodyItems, behind, ss, bodyGroups, bodyPhrase, bodyBare⟩ :=
    inner [] body' closing bodyMarks closingKind
  obtain ⟨bs', otherwise', phrase, bare, otherwiseBare⟩ := alternatives behind
  have thenKind : thenToken.kind = .thenWord := Token.kind_of_mark thenMark
  have thenPlain := Token.plain_of_mark thenMark nofun
  have bodyAll : Groups [] (body' ++ closing :: us) (bodyItems ++ ⟨behind, closing⟩ :: items) := by
    have both := bodyGroups.append groups
    rwa [List.append_assoc, List.append_assoc] at both
  refine ⟨tests.map Item.plain ++ .plain thenToken :: bodyItems, ⟨behind, closing⟩, items, ?_,
    fun word => ⟨_, bs', otherwise', .mk testPhrase thenKind (.mk bodyPhrase), phrase, ?_,
      otherwiseBare⟩⟩
  · rw [List.append_assoc]
    exact testGroups.append (.cons thenPlain bodyAll)
  · simp only [bareBranches, Block.bare, testBare, bare, bodyBare]
    rfl

theorem choice_derived {condition : Expr} {body : Block} {bs : List Branch} {tail : List Mark}
    {otherwise : Option Block} {span span' : Span} {ts : List Token} (test : condition.Writable g)
    (inner : StatementsDerived g body.statements)
    (others : ∀ ts : List Token, ts.map Token.mark = tail → AlternativesFrom g bs otherwise ts)
    (marks : ts.map Token.mark = .word .ifWord ::
      (condition.marks ++ .word .thenWord :: (body.marks ++ tail))) :
    (Stmt.choice span (.mk span' condition body :: bs) otherwise).DerivedFrom g ts := by
  intro comments
  obtain ⟨word, us, rfl, wordMark, afterWord⟩ := List.map_eq_cons_iff.1 marks
  obtain ⟨items, closing, more, groups, derived⟩ := guarded_derived test inner others afterWord
  obtain ⟨b', bs', otherwise', first, phrase, bare, otherwiseBare⟩ :=
    derived ⟨comments.reverse, word⟩
  refine ⟨_, _, _, .cons (Token.plain_of_mark wordMark nofun) groups, rfl,
    .choice (Token.kind_of_mark wordMark) first phrase, ?_⟩
  rw [Stmt.bare_choice, Stmt.bare_choice, bare, otherwiseBare]

mutual

theorem Stmt.derived : ∀ s : Stmt, s.Writable g → (∃ span text, s = .comment span text) ∨
    ∀ ts : List Token, ts.map Token.mark = s.marks → s.DerivedFrom g ts
  | .assign _ .bind name value, ⟨_, writable⟩ => by
    refine .inr fun ts marks comments => ?_
    obtain ⟨nameToken, more, rfl, plain, groups, target⟩ := target_derived writable marks
    obtain ⟨value', phrase, bare⟩ := target comments.reverse
    refine ⟨_, _, _, .cons plain groups, rfl, .assign phrase, ?_⟩
    rw [Stmt.bare, Stmt.bare, bare]
  | .assign _ .update name value, ⟨_, writable⟩ => by
    refine .inr fun ts marks comments => ?_
    obtain ⟨word, rest, rfl, wordMark, marks⟩ := List.map_eq_cons_iff.1 marks
    obtain ⟨nameToken, more, rfl, plain, groups, target⟩ := target_derived writable marks
    obtain ⟨value', phrase, bare⟩ := target []
    have wordKind : word.kind = .setWord := Token.kind_of_mark wordMark
    have wordPlain := Token.plain_of_mark wordMark nofun
    refine ⟨_, _, _, .cons wordPlain (.cons plain groups), rfl, .setAssign wordKind phrase, ?_⟩
    rw [Stmt.bare, Stmt.bare, bare]
  | .call c, writable => by
    refine .inr fun ts marks comments => ?_
    obtain ⟨t, more, rfl, plain, groups, call⟩ := call_derived writable marks
    obtain ⟨c', phrase, bare⟩ := call comments.reverse
    refine ⟨_, _, _, .cons plain groups, rfl, .call phrase, ?_⟩
    rw [Stmt.bare, Stmt.bare, bare]
  | .choice _ (.mk span condition body :: bs) none, ⟨_, ⟨test, inner, others⟩⟩ => by
    refine .inr fun ts marks => ?_
    rw [Stmt.marks, branchMarks, List.cons_append, List.append_assoc, List.cons_append,
      List.append_assoc] at marks
    exact choice_derived test (Block.derived body inner)
      (alternatives_derived bs others last_derived) marks
  | .choice _ (.mk span condition body :: bs) (some last), ⟨_, ⟨test, inner, others⟩, lastOk⟩ => by
    refine .inr fun ts marks => ?_
    rw [Stmt.marks, branchMarks, List.cons_append, List.append_assoc, List.cons_append,
      List.append_assoc] at marks
    exact choice_derived test (Block.derived body inner)
      (alternatives_derived bs others (otherwise_derived (Block.derived last lastOk))) marks
  | .choice _ [] none, ⟨nonempty, _⟩ => absurd rfl nonempty
  | .choice _ [] (some _), ⟨nonempty, _⟩ => absurd rfl nonempty
  | .whileLoop _ condition body, ⟨allowed, _, test, inner⟩ => by
    refine .inr fun ts marks comments => ?_
    obtain ⟨word, rest, rfl, wordMark, afterWord⟩ := List.map_eq_cons_iff.1 marks
    obtain ⟨tests, rest, rfl, testMarks, afterTest⟩ := List.map_eq_append_iff.1 afterWord
    obtain ⟨doToken, rest, rfl, doMark, afterDo⟩ := List.map_eq_cons_iff.1 afterTest
    obtain ⟨testGroups, condition', testPhrase, testBare⟩ := Expr.derived_tokens test testMarks
    obtain ⟨items, closing, body', groups, closingKind, bodyPhrase, bodyBare⟩ :=
      closed_derived (Block.derived body inner) afterDo nofun
    refine ⟨_, _, _, .cons (Token.plain_of_mark wordMark nofun) (testGroups.append
      (.cons (Token.plain_of_mark doMark nofun) groups)), rfl,
      .whileLoop allowed (Token.kind_of_mark wordMark) testPhrase (Token.kind_of_mark doMark)
        (.mk bodyPhrase) closingKind, ?_⟩
    rw [Stmt.bare, Stmt.bare, testBare, ← bodyBare]
    rfl
  | .forLoop _ counter first last step body, ⟨allowed, _, _, start, stop, increment, inner⟩ => by
    refine .inr fun ts marks comments => ?_
    obtain ⟨word, rest, rfl, wordMark, afterWord⟩ := List.map_eq_cons_iff.1 marks
    obtain ⟨counterToken, rest, rfl, counterMark, afterCounter⟩ := List.map_eq_cons_iff.1 afterWord
    obtain ⟨sign, rest, rfl, signMark, afterSign⟩ := List.map_eq_cons_iff.1 afterCounter
    obtain ⟨firsts, rest, rfl, firstMarks, afterFirst⟩ := List.map_eq_append_iff.1 afterSign
    obtain ⟨toToken, rest, rfl, toMark, afterTo⟩ := List.map_eq_cons_iff.1 afterFirst
    obtain ⟨lasts, rest, rfl, lastMarks, afterLast⟩ := List.map_eq_append_iff.1 afterTo
    obtain ⟨steps, rest, rfl, stepMarks, afterStep⟩ := List.map_eq_append_iff.1 afterLast
    obtain ⟨doToken, rest, rfl, doMark, afterDo⟩ := List.map_eq_cons_iff.1 afterStep
    obtain ⟨firstGroups, first', firstPhrase, firstBare⟩ := Expr.derived_tokens start firstMarks
    obtain ⟨lastGroups, last', lastPhrase, lastBare⟩ := Expr.derived_tokens stop lastMarks
    obtain ⟨stepGroups, step', stepPhrase, stepBare⟩ := step_derived increment stepMarks
    obtain ⟨items, closing, body', groups, closingKind, bodyPhrase, bodyBare⟩ :=
      closed_derived (Block.derived body inner) afterDo nofun
    have inside := stepGroups.append (.cons (Token.plain_of_mark doMark nofun) groups)
    have upTo := lastGroups.append inside
    have all := firstGroups.append (.cons (Token.plain_of_mark toMark nofun) upTo)
    refine ⟨_, _, _, .cons (Token.plain_of_mark wordMark nofun)
      (.cons (Token.plain_of_mark counterMark nofun)
        (.cons (Token.plain_of_mark signMark nofun) all)),
      rfl, .forLoop allowed (Token.kind_of_mark wordMark) (Token.kind_of_mark counterMark)
        (Token.kind_of_mark signMark) firstPhrase (Token.kind_of_mark toMark) lastPhrase stepPhrase
        (Token.kind_of_mark doMark) (.mk bodyPhrase) closingKind, ?_⟩
    rw [Stmt.bare, Stmt.bare, firstBare, lastBare, stepBare, ← bodyBare,
      Token.name_of_mark counterMark (by decide)]
    rfl
  | .block body, inner => by
    refine .inr fun ts marks comments => ?_
    obtain ⟨word, rest, rfl, wordMark, afterWord⟩ := List.map_eq_cons_iff.1 marks
    obtain ⟨items, closing, body', groups, closingKind, bodyPhrase, bodyBare⟩ :=
      closed_derived (Block.derived body inner) afterWord nofun
    refine ⟨_, _, _, .cons (Token.plain_of_mark wordMark nofun) groups, rfl,
      .block (Token.kind_of_mark wordMark) bodyPhrase closingKind, ?_⟩
    rw [Stmt.bare, Stmt.bare, ← bodyBare]
    rfl
  | .ret _, _ => by
    refine .inr fun ts marks comments => ?_
    obtain ⟨word, rfl, wordMark⟩ := List.map_eq_singleton_iff.1 marks
    exact ⟨_, _, _, .cons (Token.plain_of_mark wordMark nofun) .nil, rfl,
      .ret (Token.kind_of_mark wordMark), rfl⟩
  | .comment span text, _ => .inl ⟨span, text, rfl⟩

theorem alternatives_derived : ∀ bs : List Branch, branchesWritable g bs →
    ∀ {tail : List Mark} {otherwise : Option Block},
      (∀ ts : List Token, ts.map Token.mark = tail → AlternativesFrom g [] otherwise ts) →
      ∀ ts : List Token, ts.map Token.mark = branchMarks false bs ++ tail →
        AlternativesFrom g bs otherwise ts
  | [], _, _, _, last, ts, marks => last ts marks
  | .mk _ condition body :: bs, ⟨test, inner, others⟩, tail, otherwise, last, ts, marks => by
    rw [branchMarks, List.cons_append, List.append_assoc, List.cons_append, List.append_assoc]
      at marks
    obtain ⟨word, us, rfl, wordMark, afterWord⟩ := List.map_eq_cons_iff.1 marks
    obtain ⟨items, closing, more, groups, derived⟩ :=
      guarded_derived test (Block.derived body inner)
      (alternatives_derived bs others last) afterWord
    refine ⟨word, us, _, rfl, Token.plain_of_mark wordMark nofun, groups, fun comments => ?_⟩
    obtain ⟨b', bs', otherwise', first, phrase, bare, otherwiseBare⟩ := derived ⟨comments, word⟩
    exact ⟨_, otherwise', .guarded (Token.kind_of_mark wordMark) first phrase, bare, otherwiseBare⟩

theorem Block.derived : ∀ b : Block, b.Writable g → StatementsDerived g b.statements
  | .mk _ ss, writable => stmts_derived ss writable

theorem stmts_derived : ∀ ss : List Stmt, stmtsWritable g ss → StatementsDerived g ss
  | [], _ => by
    intro comments ts closing marks closingPlain
    obtain rfl := List.map_eq_nil_iff.1 marks
    refine ⟨[], comments.reverse, _, .cons closingPlain .nil, .nil, ?_⟩
    rw [bareStmts, List.append_nil]
  | s :: ss, ⟨writable, others⟩ => by
    intro comments ts closing marks closingPlain
    obtain ⟨first, rest, rfl, firstMarks, restMarks⟩ := List.map_eq_append_iff.1 marks
    rcases Stmt.derived s writable with ⟨span, text, rfl⟩ | derived
    · obtain ⟨t, rfl, mark⟩ := List.map_eq_singleton_iff.1 firstMarks
      obtain ⟨items, behind, ss', groups, phrase, bare⟩ :=
        stmts_derived ss others (t :: comments) rest closing restMarks closingPlain
      refine ⟨items, behind, ss', .comment (Token.kind_of_mark mark) groups, phrase, ?_⟩
      rw [bare, List.reverse_cons, List.map_append, bareStmts_append, List.append_assoc]
      simp only [List.map_singleton, bareStmts, Parser.commentStmt, Stmt.bare,
        Token.name_of_mark mark (by decide), List.cons_append, List.nil_append]
    · obtain ⟨head, more, s', headGroups, before, phrase, bare⟩ := derived first firstMarks comments
      obtain ⟨items, behind, ss', groups, othersPhrase, othersBare⟩ :=
        stmts_derived ss others [] rest closing restMarks closingPlain
      have all := headGroups.append groups
      have statements := Phrase.Statements.cons phrase .none othersPhrase
      refine ⟨_, behind, _, ?_, statements, ?_⟩
      · simpa only [List.append_assoc, List.cons_append, List.nil_append] using all
      · rw [before, bareStmts_append, bareStmts, bare, othersBare]
        rfl

end

end

end InstallScript
