import InstallScript.Proofs.Syntax.Sound

/-!
Every phrase of the grammar is read by the parser, to the tree that it stands for, if the token
behind it cannot belong to it and the bound on nested steps is large enough: eight steps for each
token of the phrase, and a few more.

An expression is read as its first operand and then by `operators`. So a phrase of a level is
described by what is left to do after it (`expression_resumes`): the operators behind it are read
with the tree of the phrase as their left side. That carries the induction along the left side of an
operator, on which the grammar recurses and the parser does not.
-/

namespace InstallScript

open InstallScript.Parser

/-! ## What may follow -/

/-- The token cannot continue an expression whose operators bind at least as tightly as a level. -/
structure Stops (least : Nat) (item : Item) : Prop where
  notOpening : item.kind ≠ .leftParen
  notAssign : item.kind ≠ .assign
  loose : ∀ o : BinaryOperator, item.kind = o.kind → o.precedence < least

theorem Stops.mono {least level : Nat} {item : Item} (stops : Stops least item)
    (le : least ≤ level) : Stops level item :=
  ⟨stops.notOpening, stops.notAssign, fun o kind => Nat.lt_of_lt_of_le (stops.loose o kind) le⟩

theorem Stops.unaryLevel {least : Nat} {item : Item} (stops : Stops least item) :
    Stops UnaryOperator.precedence item :=
  ⟨stops.notOpening, stops.notAssign, fun o _ => o.precedence_lt⟩

theorem Stops.of_operator {item : Item} {o : BinaryOperator} (kind : item.kind = o.kind) :
    Stops (o.precedence + 1) item := by
  refine ⟨?_, ?_, ?_⟩
  · rw [kind]
    cases o <;> nofun
  · rw [kind]
    cases o <;> nofun
  · intro o' kind'
    have same : o' = o := Option.some.inj
      ((BinaryOperator.ofKind?_eq_some.2 kind').symm.trans (BinaryOperator.ofKind?_eq_some.2 kind))
    rw [same]
    exact Nat.lt_succ_self _

/-- The kinds of the tokens that begin a statement. -/
def statementStarts : List TokenKind :=
  [.ifWord, .whileWord, .forWord, .beginWord, .letWord, .setWord, .returnWord, .identifier]

/-- The kinds of the tokens that close a block. -/
def blockEnds : List TokenKind :=
  [.elseifWord, .elseWord, .endifWord, .endwhileWord, .endforWord, .endWord, .endOfInput]

/-- The kinds of the tokens that end an expression, whatever its level is. -/
def expressionEnds : List TokenKind :=
  [.rightParen, .comma, .thenWord, .doWord, .toWord, .stepWord, .semicolon] ++
    (statementStarts ++ blockEnds)

theorem Stops.of_mem {item : Item} (kind : item.kind ∈ expressionEnds) (least : Nat) :
    Stops least item := by
  have plain : ∀ k ∈ expressionEnds, k ≠ .leftParen ∧ k ≠ .assign ∧
      BinaryOperator.ofKind? k = none := by decide
  obtain ⟨notOpening, notAssign, noOperator⟩ := plain item.kind kind
  refine ⟨notOpening, notAssign, fun o isOperator => ?_⟩
  rw [BinaryOperator.ofKind?_eq_some.2 isOperator] at noOperator
  cases noOperator

theorem Stops.of_kind {item : Item} {kind : TokenKind} (itemKind : item.kind = kind) (least : Nat)
    (isEnd : kind ∈ expressionEnds := by decide) : Stops least item :=
  .of_mem (itemKind ▸ isEnd) least

/-! ## How phrases begin -/

section

variable {g : Grammar}

theorem Phrase.FunctionCall.begins {ts : List Item} {f : Call}
    (phrase : Phrase.FunctionCall g ts f) :
    ∃ name opening us, ts = name :: opening :: us ∧ name.kind = .identifier ∧
      opening.kind = .leftParen := by
  cases phrase with
  | bare nameKind openingKind => exact ⟨_, _, _, rfl, nameKind, openingKind⟩
  | applied nameKind openingKind => exact ⟨_, _, _, rfl, nameKind, openingKind⟩

/-- The kinds of the tokens that begin an expression. -/
def expressionStarts : List TokenKind :=
  [.notWord, .minus, .numberLiteral, .stringLiteral, .boolLiteral, .identifier, .leftParen]

mutual

theorem Phrase.Expression.begins {level : Nat} {ts : List Item} {e : Expr} :
    Phrase.Expression g level ts e →
      ∃ first more, ts = first :: more ∧ first.kind ∈ expressionStarts
  | .binary _ _ left _ => by
    obtain ⟨first, more, rfl, kind⟩ := left.begins
    exact ⟨first, _, rfl, kind⟩
  | .tighter _ inner => inner.begins
  | .operand inner => inner.begins

theorem Phrase.Operand.begins {ts : List Item} {e : Expr} :
    Phrase.Operand g ts e → ∃ first more, ts = first :: more ∧ first.kind ∈ expressionStarts
  | @Phrase.Operand.unary _ o _ _ _ signKind _ => by
    refine ⟨_, _, rfl, ?_⟩
    rw [signKind]
    cases o <;> decide
  | .literal kind => by
    have : ∀ k ∈ Phrase.literalKinds, k ∈ expressionStarts := by decide
    exact ⟨_, _, rfl, this _ kind⟩
  | .variable kind => ⟨_, _, rfl, by simp [expressionStarts, kind]⟩
  | .call inner => by
    obtain ⟨name, opening, us, rfl, kind, -⟩ := inner.begins
    exact ⟨_, _, rfl, by simp [expressionStarts, kind]⟩
  | .parentheses kind _ _ => ⟨_, _, rfl, by simp [expressionStarts, kind]⟩

end

theorem Phrase.Expression.length_pos {level : Nat} {ts : List Item} {e : Expr}
    (phrase : Phrase.Expression g level ts e) : 0 < ts.length := by
  obtain ⟨first, more, rfl, -⟩ := phrase.begins
  exact Nat.succ_pos _

theorem Phrase.Arguments.begins {ts : List Item} {es : List Expr} {ks : List KeywordArgument}
    (phrase : Phrase.Arguments g ts es ks) :
    ∃ first more, ts = first :: more ∧ first.kind ∈ expressionStarts := by
  have named {us : List Item} {k : KeywordArgument} (argument : Phrase.Named g us k) :
      ∃ first more, us = first :: more ∧ first.kind ∈ expressionStarts := by
    cases argument with
    | mk _ nameKind _ _ => exact ⟨_, _, rfl, by simp [expressionStarts, nameKind]⟩
  cases phrase with
  | lastPositional argument => exact argument.begins
  | lastNamed argument => exact named argument
  | positional _ argument _ =>
    obtain ⟨first, more, rfl, kind⟩ := argument.begins
    exact ⟨first, _, rfl, kind⟩
  | named _ argument _ =>
    obtain ⟨first, more, rfl, kind⟩ := named argument
    exact ⟨first, _, rfl, kind⟩

mutual

/-- No expression begins like an argument that is given by name. -/
theorem Phrase.Expression.not_named {level : Nat} {ts : List Item} {e : Expr} :
    Phrase.Expression g level ts e → ∀ {follow first second : Item} {items more : List Item},
      follow.kind ≠ .assign → ts ++ follow :: items = first :: second :: more →
      first.kind = .identifier → second.kind ≠ .assign
  | .binary _ signKind left _, _, _, _, _, _, _, begins, firstKind => by
    rw [List.append_assoc, List.cons_append] at begins
    exact left.not_named (Stops.of_operator signKind).notAssign begins firstKind
  | .tighter _ inner, _, _, _, _, _, notAssign, begins, firstKind =>
    inner.not_named notAssign begins firstKind
  | .operand inner, _, _, _, _, _, notAssign, begins, firstKind =>
    inner.not_named notAssign begins firstKind

theorem Phrase.Operand.not_named {ts : List Item} {e : Expr} :
    Phrase.Operand g ts e → ∀ {follow first second : Item} {items more : List Item},
      follow.kind ≠ .assign → ts ++ follow :: items = first :: second :: more →
      first.kind = .identifier → second.kind ≠ .assign
  | @Phrase.Operand.unary _ o _ _ _ signKind _, _, _, _, _, _, _, begins, firstKind => by
    injection begins with firstEq
    rw [← firstEq, signKind] at firstKind
    cases o <;> cases firstKind
  | .literal _, _, _, _, _, _, notAssign, begins, _ => by
    cases begins
    exact notAssign
  | .variable _, _, _, _, _, _, notAssign, begins, _ => by
    cases begins
    exact notAssign
  | .call inner, _, _, _, _, _, _, begins, _ => by
    obtain ⟨name, opening, us, rfl, -, openingKind⟩ := inner.begins
    cases begins
    simp [openingKind]
  | .parentheses openingKind _ _, _, _, _, _, _, _, begins, firstKind => by
    injection begins with firstEq
    rw [← firstEq, openingKind] at firstKind
    cases firstKind

end

/-! ## Expressions -/

/-- Nothing is left to do where no operator is at hand that binds tightly enough. -/
theorem operators_of_stops {n least : Nat} {e : Expr} {c : Cursor} {follow : Item}
    {items : List Item} (rest : c.rest = follow :: items) (stops : Stops least follow)
    (bound : 1 ≤ n) : operators g n least e c = .ok (e, c) := by
  obtain ⟨n, rfl⟩ := Nat.exists_eq_add_of_le' bound
  rw [operators, bind_of_ok (peek_of_rest rest)]
  cases isOperator : BinaryOperator.ofKind? follow.token.kind with
  | none => rfl
  | some o =>
    have loose := stops.loose o (BinaryOperator.ofKind?_eq_some.1 isOperator)
    simp only [if_pos loose]
    rfl

/-- An expression that is read up to the operators behind it is read, if these bind too loosely. -/
theorem expression_of_resumes {n level size : Nat} {e : Expr} {c c' : Cursor} {follow : Item}
    {items : List Item}
    (resumes : ∃ m, n ≤ m + size ∧ expression g n level c = operators g m level e c')
    (rest : c'.rest = follow :: items) (stops : Stops level follow) (bound : size + 1 ≤ n) :
    expression g n level c = .ok (e, c') := by
  obtain ⟨m, enough, resumes⟩ := resumes
  rw [resumes]
  exact operators_of_stops rest stops (by omega)

/-- A token that begins no phrase with a sign in front begins a primary expression. -/
theorem operand_of_no_sign {n : Nat} {c : Cursor} {item : Item} {items : List Item}
    (rest : c.rest = item :: items) (noSign : UnaryOperator.ofKind? item.kind = none) :
    operand g (n + 1) c = primary g n c := by
  rw [operand, bind_of_ok (peek_of_rest rest)]
  have noSign : UnaryOperator.ofKind? item.token.kind = none := noSign
  simp only [noSign]

theorem primary_of_literal {n : Nat} {c c' : Cursor} {item : Item} (took : Took [item] c c')
    (kind : item.kind ∈ Phrase.literalKinds) :
    primary g (n + 1) c = .ok (.literal item.token.span (literalOf item.token), c') := by
  have notEnd : item.kind ≠ .endOfInput := Phrase.ne_end_of_literal kind
  have cases : item.token.kind = .numberLiteral ∨ item.token.kind = .stringLiteral ∨
      item.token.kind = .boolLiteral := by
    simpa [Phrase.literalKinds] using kind
  rw [primary, bind_of_ok (peek_of_rest took.rest_cons)]
  rcases cases with kind | kind | kind <;> simp only [kind] <;>
    rw [bind_of_ok (advance_of_took took notEnd), pure_apply]

theorem primary_of_variable {n : Nat} {c c' : Cursor} {item follow : Item} {items : List Item}
    (took : Took [item] c c') (rest : c'.rest = follow :: items) (kind : item.kind = .identifier)
    (notOpening : follow.kind ≠ .leftParen) :
    primary g (n + 1) c = .ok (.var item.token.span item.token.name, c') := by
  have both : c.rest = item :: follow :: items := by
    rw [took.rest_cons, rest, List.nil_append]
  have kind : item.token.kind = .identifier := kind
  have notOpening : ¬ follow.token.kind = .leftParen := notOpening
  rw [primary, bind_of_ok (peek_of_rest both)]
  simp only [kind]
  rw [bind_of_ok (peekSecond_of_rest both), if_neg notOpening,
    bind_of_ok (advance_of_kind took kind), pure_apply]

theorem primary_of_call {n : Nat} {c c' : Cursor} {name opening : Item} {items : List Item}
    {f : Call}
    (rest : c.rest = name :: opening :: items) (nameKind : name.kind = .identifier)
    (openingKind : opening.kind = .leftParen) (ran : call g n c = .ok (f, c')) :
    primary g (n + 1) c = .ok (.call f, c') := by
  have nameKind : name.token.kind = .identifier := nameKind
  have openingKind : opening.token.kind = .leftParen := openingKind
  rw [primary, bind_of_ok (peek_of_rest rest)]
  simp only [nameKind]
  rw [bind_of_ok (peekSecond_of_rest rest), if_pos openingKind, bind_of_ok ran, pure_apply]

theorem primary_of_parentheses {n : Nat} {c c₁ c₂ c' : Cursor} {opening closing : Item} {e : Expr}
    (tookOpening : Took [opening] c c₁) (openingKind : opening.kind = .leftParen)
    (ran : expression g n 1 c₁ = .ok (e, c₂)) (tookClosing : Took [closing] c₂ c')
    (closingKind : closing.kind = .rightParen) : primary g (n + 1) c = .ok (e, c') := by
  have openingKind : opening.token.kind = .leftParen := openingKind
  rw [primary, bind_of_ok (peek_of_rest tookOpening.rest_cons)]
  simp only [openingKind]
  rw [bind_of_ok (advance_of_kind tookOpening openingKind), bind_of_ok ran,
    bind_of_ok (expect_of_took tookClosing closingKind), pure_apply]

/-- An argument that is given by position. -/
theorem argument_of_positional {n : Nat} {function : Token} {positional : List Expr}
    {ts : List Item}
    {e : Expr} {c c' : Cursor} {follow : Item} {items : List Item}
    (phrase : Phrase.Expression g 1 ts e) (took : Took ts c c') (rest : c'.rest = follow :: items)
    (notAssign : follow.kind ≠ .assign) (ran : expression g n 1 c = .ok (e, c')) :
    argument g (n + 1) function positional [] c = .ok ((positional ++ [e], []), c') := by
  obtain ⟨first, more, begins, -⟩ := phrase.begins
  obtain ⟨second, more', restEq⟩ : ∃ second more', c.rest = first :: second :: more' := by
    rw [took.rest, rest, begins]
    cases more <;> exact ⟨_, _, rfl⟩
  rw [argument, bind_of_ok (peek_of_rest restEq)]
  by_cases firstKind : first.kind = .identifier
  · have notNamed : second.kind ≠ .assign :=
      phrase.not_named notAssign (by rw [← rest, ← took.rest, restEq]) firstKind
    rw [if_pos firstKind, bind_of_ok (peekSecond_of_rest restEq), decide_eq_false notNamed,
      bind_of_ok pure_run]
    dsimp only
    rw [Bool.false_and, if_neg Bool.false_ne_true, if_neg Bool.false_ne_true,
      if_pos List.isEmpty_nil, bind_of_ok ran, pure_apply]
  · rw [if_neg firstKind, bind_of_ok pure_run]
    dsimp only
    rw [Bool.false_and, if_neg Bool.false_ne_true, if_neg Bool.false_ne_true,
      if_pos List.isEmpty_nil, bind_of_ok ran, pure_apply]

/-- An argument that is given by name. -/
theorem argument_of_named {n : Nat} {function : Token} {positional : List Expr}
    {keywords : List KeywordArgument} {name sign : Item} {ts : List Item} {e : Expr}
    {c c₂ c' : Cursor}
    (allowed : g.keywordArguments = true) (nameKind : name.kind = .identifier)
    (signKind : sign.kind = .assign) (tookBoth : Took [name, sign] c c₂) (tookValue : Took ts c₂ c')
    (ran : expression g n 1 c₂ = .ok (e, c')) :
    argument g (n + 1) function positional keywords c =
      .ok ((positional, keywords ++ [.mk (name.token.through none (sign :: ts)) name.token.name e]),
        c') := by
  obtain ⟨c₁, tookName, tookSign⟩ := took_cons.1 tookBoth
  have took : Took (name :: sign :: ts) c c' := tookBoth.trans tookValue
  rw [argument, bind_of_ok (peek_of_rest tookBoth.rest_cons), if_pos nameKind,
    bind_of_ok (peekSecond_of_rest tookBoth.rest), decide_eq_true signKind, bind_of_ok pure_run]
  dsimp only
  rw [allowed, Bool.not_true, Bool.and_false, if_neg Bool.false_ne_true, if_pos rfl,
    bind_of_ok (advance_of_kind tookName nameKind),
    bind_of_ok (advance_of_kind tookSign signKind), bind_of_ok ran,
    bind_of_ok (spanFrom_of_took took), pure_apply]

mutual

/-- After a phrase of a level the parser goes on with the operators behind it. -/
theorem expression_resumes {level : Nat} {ts : List Item} {e : Expr} :
    Phrase.Expression g level ts e → ∀ (n least : Nat) {c c' : Cursor} {follow : Item}
      {items : List Item}, Took ts c c' → c'.rest = follow :: items → Stops (level + 1) follow →
      least ≤ level → 8 * ts.length ≤ n →
      ∃ m, n ≤ m + 8 * ts.length ∧ expression g n least c = operators g m least e c'
  | @Phrase.Expression.binary _ _ o sign ls rs _ b tightness signKind left right, n, least, c, c',
      _,
      _, took, rest, stops, le, bound => by
    rw [List.length_append, List.length_cons] at bound ⊢
    obtain ⟨c₁, tookLeft, tookMore⟩ := took_append.1 took
    obtain ⟨c₂, tookSign, tookRight⟩ := took_cons.1 tookMore
    obtain ⟨m, enough, resumes⟩ := expression_resumes left n least tookLeft tookMore.rest_cons
      (tightness ▸ Stops.of_operator signKind) le (by omega)
    obtain ⟨k, rfl⟩ := Nat.exists_eq_add_of_le' (show 1 ≤ m by omega)
    have isOperator : BinaryOperator.ofKind? sign.token.kind = some o :=
      BinaryOperator.ofKind?_eq_some.2 signKind
    have ranRight : expression g k (level + 1) c₂ = .ok (b, c') :=
      expression_of_resumes (expression_resumes right k _ tookRight rest
        (stops.mono (Nat.le_succ _)) (Nat.le_refl _) (by omega)) rest stops (by omega)
    refine ⟨k, by omega, ?_⟩
    rw [resumes, operators, bind_of_ok (peek_of_rest tookMore.rest_cons)]
    simp only [isOperator, tightness, if_neg (Nat.not_lt.2 le)]
    rw [bind_of_ok (advance_of_kind tookSign signKind o.kind_ne_end), bind_of_ok ranRight]
  | .tighter _ inner, n, least, _, _, _, _, took, rest, stops, le, bound =>
    expression_resumes inner n least took rest (stops.mono (Nat.le_succ _)) (Nat.le_succ_of_le le)
      bound
  | .operand inner, n, least, c, c', _, _, took, rest, stops, _, bound => by
    have positive := (Phrase.Expression.operand inner).length_pos
    obtain ⟨k, rfl⟩ := Nat.exists_eq_add_of_le' (show 1 ≤ n by omega)
    have ran : operand g k c = .ok (e, c') :=
      operand_complete inner took rest stops.unaryLevel (by omega)
    refine ⟨k, by omega, ?_⟩
    rw [expression, bind_of_ok ran]

theorem operand_complete {ts : List Item} {e : Expr} :
    Phrase.Operand g ts e → ∀ {n : Nat} {c c' : Cursor} {follow : Item} {items : List Item},
      Took ts c c' → c'.rest = follow :: items → Stops UnaryOperator.precedence follow →
      8 * ts.length ≤ n + 6 → operand g n c = .ok (e, c')
  | @Phrase.Operand.unary _ o sign ts e signKind inner, n, c, c', _, _, took, rest, stops,
      bound => by
    rw [List.length_cons] at bound
    obtain ⟨n, rfl⟩ := Nat.exists_eq_add_of_le' (show 1 ≤ n by omega)
    obtain ⟨c₁, tookSign, tookInner⟩ := took_cons.1 took
    have isOperator : UnaryOperator.ofKind? sign.token.kind = some o :=
      UnaryOperator.ofKind?_eq_some.2 signKind
    have ran : operand g n c₁ = .ok (e, c') :=
      operand_complete inner tookInner rest stops (by omega)
    rw [operand, bind_of_ok (peek_of_rest took.rest_cons)]
    simp only [isOperator]
    rw [bind_of_ok (advance_of_kind tookSign signKind o.kind_ne_end), bind_of_ok ran, pure_apply]
  | @Phrase.Operand.literal _ item kind, n, c, c', _, _, took, _, _, bound => by
    rw [List.length_singleton] at bound
    obtain ⟨n, rfl⟩ := Nat.exists_eq_add_of_le' (show 2 ≤ n by omega)
    have noSign : UnaryOperator.ofKind? item.kind = none := by
      have : ∀ k ∈ Phrase.literalKinds, UnaryOperator.ofKind? k = none := by decide
      exact this _ kind
    rw [operand_of_no_sign took.rest_cons noSign]
    exact primary_of_literal took kind
  | .variable kind, n, c, c', _, _, took, rest, stops, bound => by
    rw [List.length_singleton] at bound
    obtain ⟨n, rfl⟩ := Nat.exists_eq_add_of_le' (show 2 ≤ n by omega)
    rw [operand_of_no_sign took.rest_cons (by rw [kind]; rfl)]
    exact primary_of_variable took rest kind stops.notOpening
  | .call inner, n, c, c', _, _, took, _, _, bound => by
    have ran := fun m enough => call_complete inner m took enough
    obtain ⟨name, opening, us, rfl, nameKind, openingKind⟩ := inner.begins
    simp only [List.length_cons] at bound
    obtain ⟨n, rfl⟩ := Nat.exists_eq_add_of_le' (show 2 ≤ n by omega)
    rw [operand_of_no_sign took.rest_cons (by rw [nameKind]; rfl)]
    exact primary_of_call took.rest_cons nameKind openingKind
      (ran n (by simp only [List.length_cons]; omega))
  | .parentheses openingKind closingKind inner, n, c, c', _, _, took, _, _, bound => by
    simp only [List.length_cons, List.length_append, List.length_nil] at bound
    obtain ⟨n, rfl⟩ := Nat.exists_eq_add_of_le' (show 2 ≤ n by omega)
    obtain ⟨c₁, tookOpening, tookMore⟩ := took_cons.1 took
    obtain ⟨c₂, tookInner, tookClosing⟩ := took_append.1 tookMore
    have ran : expression g n 1 c₁ = .ok (e, c₂) :=
      expression_of_resumes (expression_resumes inner n 1 tookInner tookClosing.rest_cons
        (.of_kind closingKind 2) (Nat.le_refl _) (by omega)) tookClosing.rest_cons
        (.of_kind closingKind 1) (by omega)
    rw [operand_of_no_sign took.rest_cons (by rw [openingKind]; rfl)]
    exact primary_of_parentheses tookOpening openingKind ran tookClosing closingKind

theorem call_complete {ts : List Item} {f : Call} :
    Phrase.FunctionCall g ts f → ∀ (n : Nat) {c c' : Cursor}, Took ts c c' →
      8 * ts.length ≤ n + 20 → call g n c = .ok (f, c')
  | .bare nameKind openingKind closingKind, n, c, c', took, bound => by
    simp only [List.length_cons, List.length_nil] at bound
    obtain ⟨n, rfl⟩ := Nat.exists_eq_add_of_le' (show 1 ≤ n by omega)
    obtain ⟨c₁, tookName, tookMore⟩ := took_cons.1 took
    obtain ⟨c₂, tookOpening, tookClosing⟩ := took_cons.1 tookMore
    rw [call, bind_of_ok (expect_of_took tookName nameKind),
      bind_of_ok (expect_of_took tookOpening openingKind),
      bind_of_ok (peek_of_rest tookClosing.rest_cons), if_pos closingKind]
    rw [bind_of_ok pure_run]
    dsimp only
    rw [bind_of_ok (expect_of_took tookClosing closingKind), bind_of_ok (spanFrom_of_took took),
      pure_apply]
  | @Phrase.FunctionCall.applied _ name _ _ us positional keywords nameKind openingKind closingKind
      inner, n, c, c', took, bound => by
    simp only [List.length_cons, List.length_append, List.length_nil] at bound
    obtain ⟨n, rfl⟩ := Nat.exists_eq_add_of_le' (show 1 ≤ n by omega)
    obtain ⟨c₁, tookName, tookMore⟩ := took_cons.1 took
    obtain ⟨c₂, tookOpening, tookMore⟩ := took_cons.1 tookMore
    obtain ⟨c₃, tookInner, tookClosing⟩ := took_append.1 tookMore
    have ran : arguments g n name.token [] [] c₂ = .ok ((positional, keywords), c₃) :=
      arguments_complete inner n name.token [] [] tookInner tookClosing.rest_cons closingKind
        (.inl rfl) (by omega)
    obtain ⟨first, more, begins, firstKind⟩ := inner.begins
    have notClosing : first.kind ≠ .rightParen := by
      intro isClosing
      rw [isClosing] at firstKind
      exact absurd firstKind (by decide)
    have rest : c₂.rest = first :: (more ++ c₃.rest) := by
      rw [tookInner.rest, begins, List.cons_append]
    rw [call, bind_of_ok (expect_of_took tookName nameKind),
      bind_of_ok (expect_of_took tookOpening openingKind), bind_of_ok (peek_of_rest rest),
      if_neg notClosing, bind_of_ok ran]
    dsimp only
    rw [bind_of_ok (expect_of_took tookClosing closingKind), bind_of_ok (spanFrom_of_took took),
      pure_apply]

theorem arguments_complete {ts : List Item} {es : List Expr} {ks : List KeywordArgument} :
    Phrase.Arguments g ts es ks → ∀ (n : Nat) (function : Token) (positional : List Expr)
      (keywords : List KeywordArgument) {c c' : Cursor} {follow : Item} {items : List Item},
      Took ts c c' → c'.rest = follow :: items → follow.kind = .rightParen →
      (keywords = [] ∨ es = []) → 8 * ts.length + 3 ≤ n →
      arguments g n function positional keywords c =
        .ok ((positional ++ es, keywords ++ ks), c')
  | .lastPositional argument, n, function, positional, keywords, c, c', follow, items, took, rest,
      kind, order, bound => by
    obtain ⟨n, rfl⟩ := Nat.exists_eq_add_of_le' (show 2 ≤ n by omega)
    have noKeywords : keywords = [] := order.resolve_right (by simp)
    have ran : expression g n 1 c = .ok (_, c') :=
      expression_of_resumes (expression_resumes argument n 1 took rest (.of_kind kind 2)
        (Nat.le_refl _) (by omega)) rest (.of_kind kind 1) (by omega)
    have notComma : ¬ follow.kind = .comma := by
      simp [kind]
    rw [arguments, noKeywords,
      bind_of_ok (argument_of_positional argument took rest (by simp [kind]) ran)]
    dsimp only
    rw [bind_of_ok (peek_of_rest rest), if_neg notComma, pure_apply, List.append_nil]
  | @Phrase.Arguments.lastNamed _ _ _ (@Phrase.Named.mk _ name sign vs e allowed nameKind signKind
      value),
      n, function, positional, keywords, c, c', follow, items, took, rest, kind, order, bound => by
    simp only [List.length_cons] at bound
    obtain ⟨n, rfl⟩ := Nat.exists_eq_add_of_le' (show 2 ≤ n by omega)
    have tookParts : Took ([name, sign] ++ vs) c c' := took
    obtain ⟨c₂, tookBoth, tookValue⟩ := took_append.1 tookParts
    have ran : expression g n 1 c₂ = .ok (e, c') :=
      expression_of_resumes (expression_resumes value n 1 tookValue rest (.of_kind kind 2)
        (Nat.le_refl _) (by omega)) rest (.of_kind kind 1) (by omega)
    have notComma : ¬ follow.kind = .comma := by
      simp [kind]
    rw [arguments,
      bind_of_ok (argument_of_named allowed nameKind signKind tookBoth tookValue ran)]
    dsimp only
    rw [bind_of_ok (peek_of_rest rest), if_neg notComma, pure_apply, List.append_nil]
  | @Phrase.Arguments.positional _ comma ts us e es ks commaKind argument others, n, function,
      positional, keywords, c, c', _, _, took, rest, kind, order, bound => by
    simp only [List.length_append, List.length_cons] at bound
    obtain ⟨n, rfl⟩ := Nat.exists_eq_add_of_le' (show 2 ≤ n by omega)
    have noKeywords : keywords = [] := order.resolve_right (by simp)
    have positive := argument.length_pos
    obtain ⟨c₁, tookFirst, tookMore⟩ := took_append.1 took
    obtain ⟨c₂, tookComma, tookOthers⟩ := took_cons.1 tookMore
    have ran : expression g n 1 c = .ok (e, c₁) :=
      expression_of_resumes (expression_resumes argument n 1 tookFirst tookMore.rest_cons
        (.of_kind commaKind 2) (Nat.le_refl _) (by omega)) tookMore.rest_cons
        (.of_kind commaKind 1) (by omega)
    have ranOthers : arguments g (n + 1) function (positional ++ [e]) [] c₂ =
        .ok ((positional ++ [e] ++ es, [] ++ ks), c') :=
      arguments_complete others (n + 1) function (positional ++ [e]) [] tookOthers rest kind
        (.inl rfl)
        (by omega)
    rw [arguments, noKeywords,
      bind_of_ok (argument_of_positional argument tookFirst tookMore.rest_cons
        (by simp [commaKind]) ran)]
    dsimp only
    rw [bind_of_ok (peek_of_rest tookMore.rest_cons), if_pos commaKind,
      bind_of_ok (advance_of_kind tookComma commaKind), ranOthers,
      List.append_assoc, List.singleton_append]
  | @Phrase.Arguments.named _ comma _ us _ ks commaKind
      (@Phrase.Named.mk _ name sign vs e allowed nameKind signKind value) others, n, function,
      positional, keywords, c, c', _, _, took, rest, kind, order, bound => by
    simp only [List.length_append, List.length_cons] at bound
    obtain ⟨n, rfl⟩ := Nat.exists_eq_add_of_le' (show 2 ≤ n by omega)
    obtain ⟨c₁, tookFirst, tookMore⟩ := took_append.1 took
    have tookParts : Took ([name, sign] ++ vs) c c₁ := tookFirst
    obtain ⟨c₂, tookBoth, tookValue⟩ := took_append.1 tookParts
    obtain ⟨c₃, tookComma, tookOthers⟩ := took_cons.1 tookMore
    have ran : expression g n 1 c₂ = .ok (e, c₁) :=
      expression_of_resumes (expression_resumes value n 1 tookValue tookMore.rest_cons
        (.of_kind commaKind 2) (Nat.le_refl _) (by omega)) tookMore.rest_cons
        (.of_kind commaKind 1) (by omega)
    have ranOthers := arguments_complete others (n + 1) function positional
      (keywords ++ [.mk (name.token.through none (sign :: vs)) name.token.name e]) tookOthers rest
        kind
      (.inr rfl) (by omega)
    rw [arguments,
      bind_of_ok (argument_of_named allowed nameKind signKind tookBoth tookValue ran)]
    dsimp only
    rw [bind_of_ok (peek_of_rest tookMore.rest_cons), if_pos commaKind,
      bind_of_ok (advance_of_kind tookComma commaKind), ranOthers,
      List.append_assoc, List.singleton_append]

end

/-- A phrase is read as an expression of its level. -/
theorem expression_complete {level : Nat} {ts : List Item} {e : Expr}
    (phrase : Phrase.Expression g level ts e) {n : Nat} {c c' : Cursor} {follow : Item}
    {items : List Item} (took : Took ts c c') (rest : c'.rest = follow :: items)
    (stops : Stops level follow) (bound : 8 * ts.length + 1 ≤ n) :
    expression g n level c = .ok (e, c') :=
  expression_of_resumes (expression_resumes phrase n level took rest (stops.mono (Nat.le_succ _))
    (Nat.le_refl _) (by omega)) rest stops bound

/-! ## Parts of statements -/

theorem skipSemicolon_complete {ts : List Item} (phrase : Phrase.Separator ts) {c c' : Cursor}
    {follow : Item} {items : List Item} (took : Took ts c c') (rest : c'.rest = follow :: items)
    (notSemicolon : follow.kind ≠ .semicolon) : skipSemicolon c = .ok ((), c') := by
  cases phrase with
  | none =>
    obtain rfl := took.eq_of_nil
    rw [skipSemicolon, bind_of_ok (peek_of_rest rest), if_neg notSemicolon]
    rfl
  | semicolon kind =>
    rw [skipSemicolon, bind_of_ok (peek_of_rest took.rest_cons), if_pos kind,
      bind_of_ok (advance_of_kind took kind)]
    rfl

theorem closing_complete {kind : TokenKind} {expected : String} {start closing : Item}
    {ts : List Item} {c₀ c c' : Cursor} (took : Took (start :: ts) c₀ c')
    (tookClosing : Took [closing] c c') (closingKind : closing.kind = kind)
    (notEnd : kind ≠ .endOfInput := by decide) :
    Parser.closing start.token kind expected c = .ok (start.token.through none ts, c') := by
  rw [Parser.closing, bind_of_ok (expect_of_took tookClosing closingKind notEnd)]
  exact spanFrom_of_took took

theorem assignment_complete {n : Nat} {start : Token} {mode : AssignMode} {ts : List Item}
    {name : String} {e : Expr} (phrase : Phrase.Target g ts name e) {c c' : Cursor} {follow : Item}
    {items : List Item} (took : Took ts c c') (rest : c'.rest = follow :: items)
    (follows : follow.kind ∈ expressionEnds) (bound : 8 * ts.length ≤ n + 1) :
    assignment g n start mode c =
      .ok (.assign (start.span.upTo (c'.previous.getD start).span) mode name e, c') := by
  cases phrase with
  | mk nameKind signKind value =>
    simp only [List.length_cons] at bound
    obtain ⟨c₁, tookName, tookMore⟩ := took_cons.1 took
    obtain ⟨c₂, tookSign, tookValue⟩ := took_cons.1 tookMore
    rw [assignment, bind_of_ok (expect_of_took tookName nameKind),
      bind_of_ok (expect_of_took tookSign signKind),
      bind_of_ok (expression_complete value tookValue rest (.of_mem follows 1) (by omega)),
      bind_of_ok (spanFrom_eq_ok.2 ⟨rfl, rfl⟩), pure_apply]

theorem loopStep_complete {n : Nat} {ts : List Item} {step : Option Expr}
    (phrase : Phrase.LoopStep g ts step) {c c' : Cursor} {follow : Item} {items : List Item}
    (took : Took ts c c') (rest : c'.rest = follow :: items) (follows : follow.kind = .doWord)
    (bound : 8 * ts.length ≤ n) : loopStep g n c = .ok (step, c') := by
  cases phrase with
  | none =>
    obtain rfl := took.eq_of_nil
    have notStep : ¬ follow.kind = .stepWord := by
      simp [follows]
    rw [loopStep, bind_of_ok (peek_of_rest rest), if_neg notStep, pure_apply]
  | given wordKind value =>
    simp only [List.length_cons] at bound
    obtain ⟨c₁, tookWord, tookValue⟩ := took_cons.1 took
    rw [loopStep, bind_of_ok (peek_of_rest took.rest_cons), if_pos wordKind,
      bind_of_ok (advance_of_kind tookWord wordKind),
      bind_of_ok (expression_complete value tookValue rest (.of_kind follows 1) (by omega)),
      pure_apply]

theorem Phrase.Statement.begins {ts : List Item} {s : Stmt} (phrase : Phrase.Statement g ts s) :
    ∃ first more, ts = first :: more ∧ first.kind ∈ statementStarts := by
  cases phrase with
  | assign target =>
    cases target with
    | mk nameKind => exact ⟨_, _, rfl, by simp [statementStarts, nameKind]⟩
  | call inner =>
    obtain ⟨name, opening, us, rfl, nameKind, -⟩ := inner.begins
    exact ⟨_, _, rfl, by simp [statementStarts, nameKind]⟩
  | letAssign wordKind => exact ⟨_, _, rfl, by simp [statementStarts, wordKind]⟩
  | setAssign wordKind => exact ⟨_, _, rfl, by simp [statementStarts, wordKind]⟩
  | choice wordKind => exact ⟨_, _, rfl, by simp [statementStarts, wordKind]⟩
  | whileLoop _ wordKind => exact ⟨_, _, rfl, by simp [statementStarts, wordKind]⟩
  | forLoop _ wordKind => exact ⟨_, _, rfl, by simp [statementStarts, wordKind]⟩
  | block wordKind => exact ⟨_, _, rfl, by simp [statementStarts, wordKind]⟩
  | ret wordKind => exact ⟨_, _, rfl, by simp [statementStarts, wordKind]⟩

/-- What is at hand before statements begins a statement or closes their block. -/
theorem Phrase.Statements.begins {ts : List Item} {closing : Item} {ss : List Stmt}
    (phrase : Phrase.Statements g ts closing ss) {c c' : Cursor} {items : List Item}
    (took : Took ts c c') (rest : c'.rest = closing :: items) (isEnd : closing.kind ∈ blockEnds) :
    ∃ follow items', c.rest = follow :: items' ∧ follow.kind ∈ statementStarts ++ blockEnds := by
  cases phrase with
  | nil =>
    obtain rfl := took.eq_of_nil
    exact ⟨closing, items, rest, List.mem_append_right _ isEnd⟩
  | cons statement =>
    obtain ⟨first, more, begins, kind⟩ := statement.begins
    cases begins
    exact ⟨_, _, took.rest_cons, List.mem_append_left _ kind⟩

theorem Phrase.Alternatives.begins {closing : Item} {us : List Item} {bs : List Branch}
    {otherwise : Option Block} (phrase : Phrase.Alternatives g (closing :: us) bs otherwise) :
    closing.kind ∈ branchEnds := by
  cases phrase with
  | done closingKind => simp [branchEnds, closingKind]
  | otherwise wordKind => simp [branchEnds, wordKind]
  | guarded wordKind => simp [branchEnds, wordKind]

/-! ## Statements -/

/-- A block is as its statements are. -/
theorem block_of_statements {n : Nat} {ends : List TokenKind} {ts : List Item} {closing : Item}
    {ss : List Stmt} {c c' : Cursor} {items : List Item} (took : Took ts c c')
    (rest : c'.rest = closing :: items) (ran : statements g n ends c = .ok (ss, c')) :
    block g (n + 1) ends c = .ok (.mk (blockSpan c.previous ts closing) ss, c') := by
  obtain ⟨items', restStart⟩ : ∃ items', c.rest = ts.head?.getD closing :: items' := by
    rw [took.rest, rest]
    cases ts <;> exact ⟨_, rfl⟩
  rw [block, bind_of_ok (peek_of_rest restStart), bind_of_ok ran,
    bind_of_ok (spanFrom_eq_ok.2 ⟨rfl, rfl⟩), pure_apply, took.previous]
  rfl

mutual

theorem statements_complete {ts : List Item} {closing : Item} {ss : List Stmt} :
    Phrase.Statements g ts closing ss → ∀ {n : Nat} {ends : List TokenKind} {c c' : Cursor}
      {items : List Item}, Took ts c c' → c'.rest = closing :: items → closing.kind ∈ ends →
      ends ⊆ blockEnds → 8 * ts.length + 1 ≤ n → statements g n ends c = .ok (ss, c')
  | .nil, n, ends, c, c', items, took, rest, isEnd, _, bound => by
    obtain ⟨n, rfl⟩ := Nat.exists_eq_add_of_le' (show 1 ≤ n by omega)
    obtain rfl := took.eq_of_nil
    rw [statements, bind_of_ok (peekComments_of_rest rest), bind_of_ok (peek_of_rest rest),
      if_pos isEnd, pure_apply]
  | @Phrase.Statements.cons _ first closing ts separator us s ss phrase separated others, n, ends,
      c, c', items, took, rest, isEnd, areEnds, bound => by
    simp only [List.length_cons, List.length_append] at bound
    obtain ⟨n, rfl⟩ := Nat.exists_eq_add_of_le' (show 1 ≤ n by omega)
    have tookParts : Took ((first :: ts) ++ (separator ++ us)) c c' := took
    obtain ⟨c₁, tookFirst, tookMore⟩ := took_append.1 tookParts
    obtain ⟨c₂, tookSeparator, tookOthers⟩ := took_append.1 tookMore
    obtain ⟨follow, items', restOthers, follows⟩ := others.begins tookOthers rest (areEnds isEnd)
    have notSemicolon : follow.kind ≠ .semicolon := by
      intro isSemicolon
      rw [isSemicolon] at follows
      exact absurd follows (by decide)
    -- behind the statement is its semicolon or what is behind that
    obtain ⟨second, items'', restFirst, secondKind⟩ :
        ∃ second items, c₁.rest = second :: items ∧ second.kind ∈ expressionEnds := by
      cases separated with
      | none =>
        obtain rfl := tookSeparator.eq_of_nil
        exact ⟨follow, items', restOthers, List.mem_append_right _ follows⟩
      | semicolon kind => exact ⟨_, _, tookSeparator.rest_cons, by rw [kind]; decide⟩
    have ran : statement g n c = .ok (s, c₁) :=
      statement_complete phrase tookFirst restFirst secondKind
        (by rw [List.length_cons]; omega)
    have ranOthers : statements g n ends c₂ = .ok (ss, c') :=
      statements_complete others tookOthers rest isEnd areEnds (by omega)
    obtain ⟨_, _, begins, firstKind⟩ := phrase.begins
    cases begins
    have disjoint : ∀ kind ∈ statementStarts, kind ∉ blockEnds := by decide
    have notEnd : first.token.kind ∉ ends := fun isEnd => disjoint _ firstKind (areEnds isEnd)
    have notLast : first.token.kind ≠ .endOfInput := by
      intro isLast
      exact disjoint _ firstKind (by rw [Item.kind, isLast]; decide)
    rw [statements, bind_of_ok (peekComments_of_rest took.rest_cons),
      bind_of_ok (peek_of_rest took.rest_cons), if_neg notEnd, if_neg notLast, bind_of_ok ran,
      bind_of_ok (skipSemicolon_complete separated tookSeparator restOthers notSemicolon),
      bind_of_ok ranOthers, pure_apply]

theorem block_complete {before : Option Token} {ts : List Item} {closing : Item} {b : Block} :
    Phrase.Body g before ts closing b → ∀ {n : Nat} {ends : List TokenKind} {c c' : Cursor}
      {items : List Item}, c.previous = before → Took ts c c' → c'.rest = closing :: items →
      closing.kind ∈ ends → ends ⊆ blockEnds → 8 * ts.length + 2 ≤ n →
      block g n ends c = .ok (b, c')
  | @Phrase.Body.mk _ before ts closing ss inner, n, ends, c, c', items, previous, took, rest,
      isEnd,
      areEnds, bound => by
    obtain ⟨n, rfl⟩ := Nat.exists_eq_add_of_le' (show 1 ≤ n by omega)
    have ran : statements g n ends c = .ok (ss, c') :=
      statements_complete inner took rest isEnd areEnds (by omega)
    rw [block_of_statements took rest ran, previous]

theorem branch_complete {word : Item} {ts : List Item} {closing : Item} {b : Branch} :
    Phrase.Guarded g word ts closing b → ∀ {n : Nat} {c₀ c c' : Cursor} {items : List Item},
      Took [word] c₀ c → Took ts c c' → c'.rest = closing :: items → closing.kind ∈ branchEnds →
      8 * ts.length ≤ n → branch g n word.token c = .ok (b, c')
  | @Phrase.Guarded.mk _ word thenWord closing cs body condition b test thenKind inner, n, c₀, c,
      c',
      items, tookWord, took, rest, isEnd, bound => by
    simp only [List.length_cons, List.length_append] at bound
    obtain ⟨n, rfl⟩ := Nat.exists_eq_add_of_le' (show 1 ≤ n by omega)
    obtain ⟨c₁, tookTest, tookMore⟩ := took_append.1 took
    obtain ⟨c₂, tookThen, tookBody⟩ := took_cons.1 tookMore
    have ranTest : expression g n 1 c = .ok (condition, c₁) :=
      expression_complete test tookTest tookMore.rest_cons (.of_kind thenKind 1) (by omega)
    have ranBody : block g n branchEnds c₂ = .ok (b, c') :=
      block_complete inner tookThen.previous tookBody rest isEnd (by decide) (by omega)
    have tookAll : Took (word :: (cs ++ thenWord :: body)) c₀ c' := tookWord.trans took
    rw [branch, bind_of_ok ranTest, bind_of_ok (expect_of_took tookThen thenKind),
      bind_of_ok ranBody, bind_of_ok (spanFrom_of_took tookAll), pure_apply]

theorem alternatives_complete {ts : List Item} {bs : List Branch} {otherwise : Option Block} :
    Phrase.Alternatives g ts bs otherwise → ∀ {n m : Nat} {c c' : Cursor}, Took ts c c' →
      8 * ts.length ≤ n → 8 * ts.length ≤ m →
      ∃ c₁ c₂ closing, furtherBranches g n c = .ok (bs, c₁) ∧
        Parser.otherwise g m c₁ = .ok (otherwise, c₂) ∧ Took [closing] c₂ c' ∧
        closing.kind = .endifWord
  | @Phrase.Alternatives.done _ closing closingKind, n, m, c, c', took, bound, room => by
    rw [List.length_singleton] at bound room
    obtain ⟨n, rfl⟩ := Nat.exists_eq_add_of_le' (show 1 ≤ n by omega)
    obtain ⟨m, rfl⟩ := Nat.exists_eq_add_of_le' (show 1 ≤ m by omega)
    have notFurther : ¬ closing.kind = .elseifWord := by
      simp [closingKind]
    have notElse : ¬ closing.kind = .elseWord := by
      simp [closingKind]
    refine ⟨c, c, closing, ?_, ?_, took, closingKind⟩
    · rw [furtherBranches, bind_of_ok (peek_of_rest took.rest_cons), if_neg notFurther, pure_apply]
    · rw [Parser.otherwise, bind_of_ok (peek_of_rest took.rest_cons), if_neg notElse, pure_apply]
  | @Phrase.Alternatives.otherwise _ word closing body ss wordKind inner closingKind, n, m, c, c',
      took, bound, room => by
    simp only [List.length_cons, List.length_append] at bound room
    obtain ⟨n, rfl⟩ := Nat.exists_eq_add_of_le' (show 1 ≤ n by omega)
    obtain ⟨m, rfl⟩ := Nat.exists_eq_add_of_le' (show 1 ≤ m by omega)
    have tookParts : Took ((word :: body) ++ [closing]) c c' := took
    obtain ⟨c₂, tookBoth, tookClosing⟩ := took_append.1 tookParts
    obtain ⟨c₁, tookWord, tookBody⟩ := took_cons.1 tookBoth
    have notFurther : ¬ word.kind = .elseifWord := by
      simp [wordKind]
    obtain ⟨m, rfl⟩ := Nat.exists_eq_add_of_le' (show 1 ≤ m by omega)
    have ran : statements g m [.endifWord] c₁ = .ok (ss, c₂) :=
      statements_complete inner tookBody tookClosing.rest_cons (by rw [closingKind]; decide)
        (by decide) (by omega)
    refine ⟨c, c₂, closing, ?_, ?_, tookClosing, closingKind⟩
    · rw [furtherBranches, bind_of_ok (peek_of_rest took.rest_cons), if_neg notFurther, pure_apply]
    · rw [Parser.otherwise, bind_of_ok (peek_of_rest took.rest_cons), if_pos wordKind,
        bind_of_ok (advance_of_kind tookWord wordKind),
        bind_of_ok (block_of_statements tookBody tookClosing.rest_cons ran),
        bind_of_ok (spanFrom_of_took tookBoth), pure_apply]
      rfl
  | @Phrase.Alternatives.guarded _ word closing ts us b bs otherwise wordKind first others, n, m, c,
      c', took, bound, room => by
    simp only [List.length_cons, List.length_append] at bound room
    obtain ⟨n, rfl⟩ := Nat.exists_eq_add_of_le' (show 1 ≤ n by omega)
    obtain ⟨c₁, tookWord, tookMore⟩ := took_cons.1 took
    obtain ⟨c₂, tookFirst, tookOthers⟩ := took_append.1 tookMore
    have ran : branch g n word.token c₁ = .ok (b, c₂) :=
      branch_complete first tookWord tookFirst tookOthers.rest_cons others.begins (by omega)
    obtain ⟨c₃, c₄, ending, ranOthers, ranLast, tookEnding, endingKind⟩ :=
      alternatives_complete others (n := n) (m := m) tookOthers
        (by rw [List.length_cons]; omega) (by rw [List.length_cons]; omega)
    refine ⟨c₃, c₄, ending, ?_, ranLast, tookEnding, endingKind⟩
    rw [furtherBranches, bind_of_ok (peek_of_rest took.rest_cons), if_pos wordKind,
      bind_of_ok (advance_of_kind tookWord wordKind), bind_of_ok ran,
      bind_of_ok ranOthers, pure_apply]

theorem statement_complete {ts : List Item} {s : Stmt} :
    Phrase.Statement g ts s → ∀ {n : Nat} {c c' : Cursor} {follow : Item} {items : List Item},
      Took ts c c' → c'.rest = follow :: items → follow.kind ∈ expressionEnds →
      8 * ts.length ≤ n → statement g n c = .ok (s, c')
  | @Phrase.Statement.assign _ first ts name e target, n, c, c', follow, items, took, rest, follows,
      bound => by
    rw [List.length_cons] at bound
    obtain ⟨n, rfl⟩ := Nat.exists_eq_add_of_le' (show 1 ≤ n by omega)
    have ran : assignment g n first.token .bind c = .ok (_, c') :=
      assignment_complete target took rest follows (by rw [List.length_cons]; omega)
    rw [took.through_eq] at ran
    cases target with
    | mk nameKind signKind =>
      have firstKind : first.token.kind = .identifier := nameKind
      rw [statement, bind_of_ok (peek_of_rest took.rest_cons)]
      simp only [firstKind]
      rw [bind_of_ok (peekSecond_of_rest took.rest), if_pos signKind, ran]
  | @Phrase.Statement.letAssign _ word ts name e wordKind target, n, c, c', follow, items, took,
      rest,
      follows, bound => by
    rw [List.length_cons] at bound
    obtain ⟨n, rfl⟩ := Nat.exists_eq_add_of_le' (show 1 ≤ n by omega)
    obtain ⟨c₁, tookWord, tookTarget⟩ := took_cons.1 took
    have wordKind : word.token.kind = .letWord := wordKind
    rw [statement, bind_of_ok (peek_of_rest took.rest_cons)]
    simp only [wordKind]
    rw [bind_of_ok (advance_of_kind tookWord wordKind),
      assignment_complete target tookTarget rest follows (by omega), took.through_eq]
  | @Phrase.Statement.setAssign _ word ts name e wordKind target, n, c, c', follow, items, took,
      rest,
      follows, bound => by
    rw [List.length_cons] at bound
    obtain ⟨n, rfl⟩ := Nat.exists_eq_add_of_le' (show 1 ≤ n by omega)
    obtain ⟨c₁, tookWord, tookTarget⟩ := took_cons.1 took
    have wordKind : word.token.kind = .setWord := wordKind
    rw [statement, bind_of_ok (peek_of_rest took.rest_cons)]
    simp only [wordKind]
    rw [bind_of_ok (advance_of_kind tookWord wordKind),
      assignment_complete target tookTarget rest follows (by omega), took.through_eq]
  | @Phrase.Statement.call _ ts f inner, n, c, c', follow, items, took, rest, follows, bound => by
    have ran := fun m enough => call_complete inner m took enough
    obtain ⟨name, opening, us, rfl, nameKind, openingKind⟩ := inner.begins
    simp only [List.length_cons] at bound
    obtain ⟨n, rfl⟩ := Nat.exists_eq_add_of_le' (show 1 ≤ n by omega)
    have notAssign : ¬ opening.token.kind = .assign := by
      intro isAssign
      cases isAssign.symm.trans openingKind
    have nameKind : name.token.kind = .identifier := nameKind
    rw [statement, bind_of_ok (peek_of_rest took.rest_cons)]
    simp only [nameKind]
    rw [bind_of_ok (peekSecond_of_rest took.rest), if_neg notAssign, if_pos openingKind,
      bind_of_ok (ran n (by simp only [List.length_cons]; omega)), pure_apply]
  | @Phrase.Statement.choice _ word closing ts us b bs otherwise wordKind first others, n, c, c',
      follow, items, took, rest, follows, bound => by
    simp only [List.length_cons, List.length_append] at bound
    obtain ⟨n, rfl⟩ := Nat.exists_eq_add_of_le' (show 1 ≤ n by omega)
    obtain ⟨c₁, tookWord, tookMore⟩ := took_cons.1 took
    obtain ⟨c₂, tookFirst, tookOthers⟩ := took_append.1 tookMore
    have wordKind : word.token.kind = .ifWord := wordKind
    have ran : branch g n word.token c₁ = .ok (b, c₂) :=
      branch_complete first tookWord tookFirst tookOthers.rest_cons others.begins (by omega)
    have room : 8 * (closing :: us).length ≤ n := by
      rw [List.length_cons]
      omega
    obtain ⟨c₃, c₄, ending, ranOthers, ranLast, tookEnding, endingKind⟩ :=
      alternatives_complete others tookOthers room room
    rw [statement, bind_of_ok (peek_of_rest took.rest_cons)]
    simp only [wordKind]
    rw [bind_of_ok (advance_of_kind tookWord wordKind), bind_of_ok ran, bind_of_ok ranOthers,
      bind_of_ok ranLast, bind_of_ok (closing_complete took tookEnding endingKind), pure_apply]
  | @Phrase.Statement.whileLoop _ word doWord closing cs body condition b allowed wordKind test
      doKind
      inner closingKind, n, c, c', follow, items, took, rest, follows, bound => by
    simp only [List.length_cons, List.length_append] at bound
    obtain ⟨n, rfl⟩ := Nat.exists_eq_add_of_le' (show 1 ≤ n by omega)
    obtain ⟨c₁, tookWord, tookMore⟩ := took_cons.1 took
    obtain ⟨c₂, tookTest, tookMore'⟩ := took_append.1 tookMore
    obtain ⟨c₃, tookDo, tookLast⟩ := took_cons.1 tookMore'
    obtain ⟨c₄, tookBody, tookClosing⟩ := took_append.1 tookLast
    have wordKind : word.token.kind = .whileWord := wordKind
    have ranTest : expression g n 1 c₁ = .ok (condition, c₂) :=
      expression_complete test tookTest tookMore'.rest_cons (.of_kind doKind 1) (by omega)
    have ranBody : block g n [.endwhileWord] c₃ = .ok (b, c₄) :=
      block_complete inner tookDo.previous tookBody tookClosing.rest_cons
        (by rw [closingKind]; decide) (by decide) (by omega)
    rw [statement, bind_of_ok (peek_of_rest took.rest_cons)]
    simp only [wordKind]
    rw [bind_of_ok (advance_of_kind tookWord wordKind), allowed, Bool.not_true,
      if_neg Bool.false_ne_true, bind_of_ok ranTest, bind_of_ok (expect_of_took tookDo doKind),
      bind_of_ok ranBody, bind_of_ok (closing_complete took tookClosing closingKind), pure_apply]
  | @Phrase.Statement.forLoop _ word counter sign toWord doWord closing fs ls ss body first last
      step b
      allowed wordKind counterKind signKind start toKind stop increment doKind inner closingKind, n,
      c, c', follow, items, took, rest, follows, bound => by
    simp only [List.length_cons, List.length_append] at bound
    obtain ⟨n, rfl⟩ := Nat.exists_eq_add_of_le' (show 1 ≤ n by omega)
    obtain ⟨c₁, tookWord, tookMore₁⟩ := took_cons.1 took
    obtain ⟨c₂, tookCounter, tookMore₂⟩ := took_cons.1 tookMore₁
    obtain ⟨c₃, tookSign, tookMore₃⟩ := took_cons.1 tookMore₂
    obtain ⟨c₄, tookFirst, tookMore₄⟩ := took_append.1 tookMore₃
    obtain ⟨c₅, tookTo, tookMore₅⟩ := took_cons.1 tookMore₄
    obtain ⟨c₆, tookLast, tookMore₆⟩ := took_append.1 tookMore₅
    obtain ⟨c₇, tookStep, tookMore₇⟩ := took_append.1 tookMore₆
    obtain ⟨c₈, tookDo, tookMore₈⟩ := took_cons.1 tookMore₇
    obtain ⟨c₉, tookBody, tookClosing⟩ := took_append.1 tookMore₈
    have wordKind : word.token.kind = .forWord := wordKind
    have ranFirst : expression g n 1 c₃ = .ok (first, c₄) :=
      expression_complete start tookFirst tookMore₄.rest_cons (.of_kind toKind 1) (by omega)
    -- behind the last value is the step or what is behind that
    obtain ⟨follow', items', restLast, follows'⟩ :
        ∃ follow items, c₆.rest = follow :: items ∧ follow.kind ∈ expressionEnds := by
      cases increment with
      | none =>
        obtain rfl := tookStep.eq_of_nil
        exact ⟨_, _, tookMore₇.rest_cons, by rw [doKind]; decide⟩
      | given stepKind => exact ⟨_, _, tookStep.rest_cons, by rw [stepKind]; decide⟩
    have ranLast : expression g n 1 c₅ = .ok (last, c₆) :=
      expression_complete stop tookLast restLast (.of_mem follows' 1) (by omega)
    have ranStep : loopStep g n c₆ = .ok (step, c₇) :=
      loopStep_complete increment tookStep tookMore₇.rest_cons doKind (by omega)
    have ranBody : block g n [.endforWord] c₈ = .ok (b, c₉) :=
      block_complete inner tookDo.previous tookBody tookClosing.rest_cons
        (by rw [closingKind]; decide) (by decide) (by omega)
    rw [statement, bind_of_ok (peek_of_rest took.rest_cons)]
    simp only [wordKind]
    rw [bind_of_ok (advance_of_kind tookWord wordKind), allowed, Bool.not_true,
      if_neg Bool.false_ne_true, bind_of_ok (expect_of_took tookCounter counterKind),
      bind_of_ok (expect_of_took tookSign signKind), bind_of_ok ranFirst,
      bind_of_ok (expect_of_took tookTo toKind), bind_of_ok ranLast, bind_of_ok ranStep,
      bind_of_ok (expect_of_took tookDo doKind), bind_of_ok ranBody,
      bind_of_ok (closing_complete took tookClosing closingKind), pure_apply]
  | @Phrase.Statement.block _ word closing body ss wordKind inner closingKind, n, c, c', follow,
      items, took, rest, follows, bound => by
    simp only [List.length_cons, List.length_append] at bound
    obtain ⟨n, rfl⟩ := Nat.exists_eq_add_of_le' (show 1 ≤ n by omega)
    obtain ⟨c₁, tookWord, tookMore⟩ := took_cons.1 took
    obtain ⟨c₂, tookBody, tookClosing⟩ := took_append.1 tookMore
    have wordKind : word.token.kind = .beginWord := wordKind
    obtain ⟨n, rfl⟩ := Nat.exists_eq_add_of_le' (show 1 ≤ n by omega)
    have ran : statements g n [.endWord] c₁ = .ok (ss, c₂) :=
      statements_complete inner tookBody tookClosing.rest_cons (by rw [closingKind]; decide)
        (by decide) (by omega)
    rw [statement, bind_of_ok (peek_of_rest took.rest_cons)]
    simp only [wordKind]
    rw [bind_of_ok (advance_of_kind tookWord wordKind),
      bind_of_ok (block_of_statements tookBody tookClosing.rest_cons ran),
      bind_of_ok (closing_complete took tookClosing closingKind), pure_apply]
    rfl
  | @Phrase.Statement.ret _ word wordKind, n, c, c', follow, items, took, rest, follows, bound => by
    rw [List.length_singleton] at bound
    obtain ⟨n, rfl⟩ := Nat.exists_eq_add_of_le' (show 1 ≤ n by omega)
    have wordKind : word.token.kind = .returnWord := wordKind
    rw [statement, bind_of_ok (peek_of_rest took.rest_cons)]
    simp only [wordKind]
    rw [bind_of_ok (advance_of_kind took wordKind), pure_apply]

end

/-! ## Whole scripts -/

/-- The bound that scripts are read with is large enough for every script. -/
theorem script_complete {items : List Item} {b : Block} (phrase : Phrase.Script g items b) :
    ∃ c', script g (Block.parseDepth items.length) ⟨items, none⟩ = .ok (b, c') := by
  cases phrase with
  | @mk body closing _ inner closingKind =>
    have took : Took body ⟨body ++ [closing], none⟩ ⟨[closing], lastToken none body⟩ := ⟨rfl, rfl⟩
    have room : 8 * body.length + 2 ≤ Block.parseDepth (body ++ [closing]).length := by
      rw [Block.parseDepth, List.length_append, List.length_singleton]
      omega
    have ran : block g (Block.parseDepth (body ++ [closing]).length) [.endOfInput]
        ⟨body ++ [closing], none⟩ = .ok (b, ⟨[closing], lastToken none body⟩) :=
      block_complete inner rfl took rfl (List.mem_singleton.2 closingKind) (by decide) room
    refine ⟨⟨[closing], some closing.token⟩, ?_⟩
    rw [script, bind_of_ok ran, bind_of_ok (expect_end rfl closingKind), pure_apply]

end

end InstallScript
