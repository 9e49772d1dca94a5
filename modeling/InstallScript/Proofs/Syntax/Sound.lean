import InstallScript.Proofs.Syntax.Reading

/-!
What the parser accepts is a phrase of the grammar. Each function of the parser is shown to take a
stretch of tokens that is a phrase standing for the tree that it gives, by induction on the bound on
nested steps.

Operators between operands are read one after another with the operand read so far as their left
side, so the left side is described by the level that it belongs to, and the token at hand by
`Below`: no operator that binds more tightly than that level is at hand.
-/

namespace InstallScript

open InstallScript.Parser

/-- No operator that binds at least as tightly is at hand. -/
def Below (least : Nat) (c : Cursor) : Prop :=
  ∀ item items o, c.rest = item :: items → item.kind = BinaryOperator.kind o → o.precedence < least

theorem Below.unaryLevel (c : Cursor) : Below UnaryOperator.precedence c :=
  fun _ _ o _ _ => o.precedence_lt

theorem Below.mono {least level : Nat} {c : Cursor} (below : Below least c) (le : least ≤ level) :
    Below level c :=
  fun item items o rest kind => Nat.lt_of_lt_of_le (below item items o rest kind) le

/-- What binds tightly enough for a level does so for every lower one. -/
theorem Phrase.Expression.lower {g : Grammar} {ts : List Item} {e : Expr} {level : Nat}
    (phrase : Phrase.Expression g level ts e) (bound : level ≤ UnaryOperator.precedence)
    {least : Nat} (le : least ≤ level) : Phrase.Expression g least ts e := by
  induction le with
  | refl => exact phrase
  | step _ ih => exact ih (.tighter (by omega) phrase) (by omega)

/-! ## Expressions -/

section

variable {g : Grammar}

mutual

theorem expression_sound : ∀ (n : Nat) {least : Nat} {c c' : Cursor} {e : Expr},
    least ≤ UnaryOperator.precedence → expression g n least c = .ok (e, c') →
      ∃ ts, Took ts c c' ∧ Phrase.Expression g least ts e ∧ Below least c'
  | 0, _, _, _, _, _, ran => by
    rw [expression] at ran
    exact absurd ran halt_ne_ok
  | n + 1, least, c, c', e, bound, ran => by
    rw [expression, bind_eq_ok] at ran
    obtain ⟨left, c₁, first, more⟩ := ran
    obtain ⟨ls, tookLeft, leftPhrase⟩ := operand_sound n first
    obtain ⟨ts, took, phrase, below⟩ :=
      operators_sound n (.operand leftPhrase) (Nat.le_refl _) bound
        (Below.mono (.unaryLevel c₁) (by omega)) more
    exact ⟨ls ++ ts, tookLeft.trans took, phrase, below⟩

theorem operators_sound : ∀ (n : Nat) {least level : Nat} {ls : List Item} {left : Expr}
    {c c' : Cursor} {e : Expr}, Phrase.Expression g level ls left →
      level ≤ UnaryOperator.precedence → least ≤ level → Below (level + 1) c →
      operators g n least left c = .ok (e, c') →
      ∃ ts, Took ts c c' ∧ Phrase.Expression g least (ls ++ ts) e ∧ Below least c'
  | 0, _, _, _, _, _, _, _, _, _, _, _, ran => by
    rw [operators] at ran
    exact absurd ran halt_ne_ok
  | n + 1, least, level, ls, left, c, c', e, leftPhrase, bound, le, below, ran => by
    rw [operators, bind_eq_ok] at ran
    obtain ⟨t, c₁, peeked, ran⟩ := ran
    obtain ⟨sign, items, rest, rfl, rfl⟩ := peek_eq_ok peeked
    cases isOperator : BinaryOperator.ofKind? sign.token.kind with
    | none =>
      simp only [isOperator] at ran
      obtain ⟨rfl, rfl⟩ := pure_eq_ok.1 ran
      refine ⟨[], .refl _, ?_, ?_⟩
      · rw [List.append_nil]
        exact leftPhrase.lower bound le
      · intro item items' o rest' kind
        rw [rest] at rest'
        cases rest'
        cases isOperator.symm.trans (BinaryOperator.ofKind?_eq_some.2 kind)
    | some o =>
      simp only [isOperator] at ran
      have signKind : sign.kind = o.kind := BinaryOperator.ofKind?_eq_some.1 isOperator
      have upper : o.precedence < level + 1 := below sign items o rest signKind
      rw [ite_eq_ok] at ran
      rcases ran with ⟨loose, ran⟩ | ⟨tight, ran⟩
      · obtain ⟨rfl, rfl⟩ := pure_eq_ok.1 ran
        refine ⟨[], .refl _, ?_, ?_⟩
        · rw [List.append_nil]
          exact leftPhrase.lower bound le
        · intro item items' o' rest' kind
          rw [rest] at rest'
          cases rest'
          have same : o' = o :=
            Option.some.inj ((BinaryOperator.ofKind?_eq_some.2 kind).symm.trans isOperator)
          exact same ▸ loose
      · rw [bind_eq_ok] at ran
        obtain ⟨_, c₂, advanced, ran⟩ := ran
        obtain ⟨-, rfl⟩ := advance_of_kind_eq_ok rest signKind advanced o.kind_ne_end
        rw [bind_eq_ok] at ran
        obtain ⟨right, c₃, second, more⟩ := ran
        obtain ⟨rs, tookRight, rightPhrase, belowRight⟩ :=
          expression_sound n (Nat.succ_le_of_lt o.precedence_lt) second
        have leftPhrase' : Phrase.Expression g o.precedence ls left :=
          leftPhrase.lower bound (by omega)
        obtain ⟨ts, took, phrase, belowEnd⟩ :=
          operators_sound n (.binary rfl signKind leftPhrase' rightPhrase)
            (Nat.le_of_lt o.precedence_lt) (by omega) belowRight more
        refine ⟨sign :: (rs ++ ts), ?_, ?_, belowEnd⟩
        · exact took_cons.2 ⟨_, .of_rest rest, tookRight.trans took⟩
        · simpa only [List.append_assoc, List.cons_append] using phrase

theorem operand_sound : ∀ (n : Nat) {c c' : Cursor} {e : Expr},
    operand g n c = .ok (e, c') → ∃ ts, Took ts c c' ∧ Phrase.Operand g ts e
  | 0, _, _, _, ran => by
    rw [operand] at ran
    exact absurd ran halt_ne_ok
  | n + 1, c, c', e, ran => by
    rw [operand, bind_eq_ok] at ran
    obtain ⟨t, c₁, peeked, ran⟩ := ran
    obtain ⟨sign, items, rest, rfl, rfl⟩ := peek_eq_ok peeked
    cases isOperator : UnaryOperator.ofKind? sign.token.kind with
    | none =>
      simp only [isOperator] at ran
      exact primary_sound n ran
    | some o =>
      simp only [isOperator] at ran
      have signKind : sign.kind = o.kind := UnaryOperator.ofKind?_eq_some.1 isOperator
      rw [bind_eq_ok] at ran
      obtain ⟨_, c₂, advanced, ran⟩ := ran
      obtain ⟨-, rfl⟩ := advance_of_kind_eq_ok rest signKind advanced o.kind_ne_end
      rw [bind_eq_ok] at ran
      obtain ⟨inner, c₃, ranInner, ran⟩ := ran
      obtain ⟨rfl, rfl⟩ := pure_eq_ok.1 ran
      obtain ⟨ts, took, phrase⟩ := operand_sound n ranInner
      exact ⟨sign :: ts, took_cons.2 ⟨_, .of_rest rest, took⟩, .unary signKind phrase⟩

theorem primary_sound : ∀ (n : Nat) {c c' : Cursor} {e : Expr},
    primary g n c = .ok (e, c') → ∃ ts, Took ts c c' ∧ Phrase.Operand g ts e
  | 0, _, _, _, ran => by
    rw [primary] at ran
    exact absurd ran halt_ne_ok
  | n + 1, c, c', e, ran => by
    rw [primary, bind_eq_ok] at ran
    obtain ⟨t, c₁, peeked, ran⟩ := ran
    obtain ⟨item, items, rest, rfl, rfl⟩ := peek_eq_ok peeked
    have literal (kind : item.kind ∈ Phrase.literalKinds)
        (ran : (do
          let _ ← advance
          return Expr.literal item.token.span (literalOf item.token)) c₁ = .ok (e, c')) :
        ∃ ts, Took ts c₁ c' ∧ Phrase.Operand g ts e := by
      rw [bind_eq_ok] at ran
      obtain ⟨_, c₂, advanced, ran⟩ := ran
      obtain ⟨-, rfl⟩ := advance_eq_ok rest (Phrase.ne_end_of_literal kind) advanced
      obtain ⟨rfl, rfl⟩ := pure_eq_ok.1 ran
      exact ⟨[item], .of_rest rest, .literal kind⟩
    cases kind : item.token.kind <;> simp only [kind] at ran
    case numberLiteral => exact literal (by simp [Phrase.literalKinds, Item.kind, kind]) ran
    case stringLiteral => exact literal (by simp [Phrase.literalKinds, Item.kind, kind]) ran
    case boolLiteral => exact literal (by simp [Phrase.literalKinds, Item.kind, kind]) ran
    case identifier =>
      rw [bind_eq_ok] at ran
      obtain ⟨second, c₂, peekedSecond, ran⟩ := ran
      obtain ⟨_, _, _, _, -, rfl⟩ := peekSecond_eq_ok peekedSecond
      rw [ite_eq_ok] at ran
      rcases ran with ⟨-, ran⟩ | ⟨-, ran⟩
      · rw [bind_eq_ok] at ran
        obtain ⟨inner, c₃, ranInner, ran⟩ := ran
        obtain ⟨rfl, rfl⟩ := pure_eq_ok.1 ran
        obtain ⟨ts, took, phrase⟩ := call_sound n ranInner
        exact ⟨ts, took, .call phrase⟩
      · rw [bind_eq_ok] at ran
        obtain ⟨_, c₃, advanced, ran⟩ := ran
        obtain ⟨-, rfl⟩ := advance_of_kind_eq_ok rest kind advanced
        obtain ⟨rfl, rfl⟩ := pure_eq_ok.1 ran
        exact ⟨[item], .of_rest rest, .variable kind⟩
    case leftParen =>
      simp only [bind_eq_ok, pure_eq_ok] at ran
      obtain ⟨_, c₂, advanced, inner, c₃, ranInner, _, c₄, closed, rfl, rfl⟩ := ran
      obtain ⟨-, rfl⟩ := advance_of_kind_eq_ok rest kind advanced
      obtain ⟨ts, took, phrase, -⟩ := expression_sound n UnaryOperator.one_le_precedence ranInner
      obtain ⟨closing, tookClosing, closingKind, -⟩ := expect_eq_ok closed
      exact ⟨item :: (ts ++ [closing]), took_cons.2 ⟨_, .of_rest rest, took.trans tookClosing⟩,
        .parentheses kind closingKind phrase⟩
    all_goals exact absurd ran halt_ne_ok

theorem call_sound : ∀ (n : Nat) {c c' : Cursor} {f : Call},
    call g n c = .ok (f, c') → ∃ ts, Took ts c c' ∧ Phrase.FunctionCall g ts f
  | 0, _, _, _, ran => by
    rw [call] at ran
    exact absurd ran halt_ne_ok
  | n + 1, c, c', f, ran => by
    simp only [call, bind_eq_ok] at ran
    obtain ⟨_, c₁, named, _, c₂, opened, t, c₃, peeked, ran⟩ := ran
    obtain ⟨name, tookName, nameKind, rfl⟩ := expect_eq_ok named
    obtain ⟨opening, tookOpening, openingKind, -⟩ := expect_eq_ok opened
    obtain ⟨_, _, -, -, rfl⟩ := peek_eq_ok peeked
    rw [ite_eq_ok] at ran
    rcases ran with ⟨-, ran⟩ | ⟨-, ran⟩
    · simp only [bind_eq_ok, pure_eq_ok] at ran
      obtain ⟨_, c₄, nothing, _, c₅, closed, span, c₆, spanned, rfl, rfl⟩ := ran
      obtain ⟨rfl, rfl⟩ := pure_eq_ok.1 nothing
      obtain ⟨closing, tookClosing, closingKind, -⟩ := expect_eq_ok closed
      obtain ⟨rfl, rfl⟩ := spanFrom_eq_ok.1 spanned
      have took : Took [name, opening, closing] c c₆ :=
        tookName.trans (tookOpening.trans tookClosing)
      rw [took.through_eq]
      exact ⟨_, took, .bare nameKind openingKind closingKind⟩
    · simp only [bind_eq_ok, pure_eq_ok] at ran
      obtain ⟨⟨positional, keywords⟩, c₄, given, _, c₅, closed, span, c₆, spanned, rfl, rfl⟩ := ran
      obtain ⟨ts, es, ks, tookArguments, rfl, rfl, phrase, -⟩ := arguments_sound n given
      obtain ⟨closing, tookClosing, closingKind, -⟩ := expect_eq_ok closed
      obtain ⟨rfl, rfl⟩ := spanFrom_eq_ok.1 spanned
      have took : Took (name :: opening :: (ts ++ [closing])) c c₆ :=
        tookName.trans (tookOpening.trans (tookArguments.trans tookClosing))
      rw [took.through_eq]
      exact ⟨_, took, .applied nameKind openingKind closingKind phrase⟩

theorem arguments_sound : ∀ (n : Nat) {function : Token} {c c' : Cursor}
    {positional positional' : List Expr} {keywords keywords' : List KeywordArgument},
    arguments g n function positional keywords c = .ok ((positional', keywords'), c') →
      ∃ ts es ks, Took ts c c' ∧ positional' = positional ++ es ∧ keywords' = keywords ++ ks ∧
        Phrase.Arguments g ts es ks ∧ (keywords = [] ∨ es = [])
  | 0, _, _, _, _, _, _, _, ran => by
    rw [arguments] at ran
    exact absurd ran halt_ne_ok
  | n + 1, function, c, c', positional, positional', keywords, keywords', ran => by
    simp only [arguments, bind_eq_ok] at ran
    obtain ⟨⟨positional₁, keywords₁⟩, c₁, first, t, c₂, peeked, ran⟩ := ran
    obtain ⟨comma, items, rest, rfl, rfl⟩ := peek_eq_ok peeked
    obtain ⟨ts, tookFirst, given⟩ := argument_sound n first
    rw [ite_eq_ok] at ran
    rcases ran with ⟨commaKind, ran⟩ | ⟨-, ran⟩
    · rw [bind_eq_ok] at ran
      obtain ⟨_, c₃, advanced, ran⟩ := ran
      obtain ⟨-, rfl⟩ := advance_of_kind_eq_ok rest commaKind advanced
      obtain ⟨us, es, ks, tookOthers, rfl, rfl, others, order⟩ := arguments_sound n ran
      have took : Took (ts ++ comma :: us) c c' :=
        tookFirst.trans (took_cons.2 ⟨_, .of_rest rest, tookOthers⟩)
      rcases given with ⟨e, phrase, rfl, rfl, rfl⟩ | ⟨k, phrase, rfl, rfl⟩
      · exact ⟨_, e :: es, ks, took, by simp, by simp,
          .positional commaKind phrase others, .inl rfl⟩
      · have noMore : es = [] := order.resolve_left (by simp)
        subst noMore
        exact ⟨_, [], k :: ks, took, by simp, by simp, .named commaKind phrase others, .inr rfl⟩
    · obtain ⟨same, rfl⟩ := pure_eq_ok.1 ran
      cases same
      rcases given with ⟨e, phrase, rfl, rfl, rfl⟩ | ⟨k, phrase, rfl, rfl⟩
      · exact ⟨ts, [e], [], tookFirst, rfl, by simp, .lastPositional phrase, .inl rfl⟩
      · exact ⟨ts, [], [k], tookFirst, by simp, rfl, .lastNamed phrase, .inr rfl⟩

theorem argument_sound : ∀ (n : Nat) {function : Token} {c c' : Cursor}
    {positional positional' : List Expr} {keywords keywords' : List KeywordArgument},
    argument g n function positional keywords c = .ok ((positional', keywords'), c') →
      ∃ ts, Took ts c c' ∧
        ((∃ e, Phrase.Expression g 1 ts e ∧ keywords = [] ∧ keywords' = [] ∧
            positional' = positional ++ [e]) ∨
          ∃ k, Phrase.Named g ts k ∧ positional' = positional ∧ keywords' = keywords ++ [k])
  | 0, _, _, _, _, _, _, _, ran => by
    rw [argument] at ran
    exact absurd ran halt_ne_ok
  | n + 1, function, c, c', positional, positional', keywords, keywords', ran => by
    simp only [argument, bind_eq_ok] at ran
    obtain ⟨t, c₁, peeked, ran⟩ := ran
    obtain ⟨start, items, rest, rfl, rfl⟩ := peek_eq_ok peeked
    have positionalRead (ran : (if keywords.isEmpty = true then (do
          let value ← expression g n 1
          return (positional ++ [value], keywords))
        else halt (.fault (.positionalAfterKeyword function.name) start.token.span)) c₁ =
          .ok ((positional', keywords'), c')) :
        ∃ ts, Took ts c₁ c' ∧ ∃ e, Phrase.Expression g 1 ts e ∧ keywords = [] ∧ keywords' = [] ∧
          positional' = positional ++ [e] := by
      rw [ite_eq_ok] at ran
      rcases ran with ⟨noKeywords, ran⟩ | ⟨-, ran⟩
      · simp only [bind_eq_ok, pure_eq_ok] at ran
        obtain ⟨value, c₃, ranValue, same, rfl⟩ := ran
        cases same
        obtain ⟨ts, took, phrase, -⟩ := expression_sound n UnaryOperator.one_le_precedence ranValue
        have none : keywords = [] := List.isEmpty_iff.1 noKeywords
        exact ⟨ts, took, value, phrase, none, none, rfl⟩
      · exact absurd ran halt_ne_ok
    rw [ite_eq_ok] at ran
    rcases ran with ⟨startKind, ran⟩ | ⟨-, ran⟩
    · rw [bind_eq_ok] at ran
      obtain ⟨second, c₂, peekedSecond, ran⟩ := ran
      obtain ⟨_, sign, items', rest', rfl, rfl⟩ := peekSecond_eq_ok peekedSecond
      cases rest.symm.trans rest'
      rw [bind_eq_ok] at ran
      obtain ⟨named, c₃, isAssign, ran⟩ := ran
      obtain ⟨rfl, rfl⟩ := pure_eq_ok.1 isAssign
      rw [ite_eq_ok] at ran
      rcases ran with ⟨-, ran⟩ | ⟨notRefused, ran⟩
      · exact absurd ran halt_ne_ok
      rw [ite_eq_ok] at ran
      rcases ran with ⟨named, ran⟩ | ⟨-, ran⟩
      · have signKind : sign.kind = .assign := of_decide_eq_true named
        have allowed : g.keywordArguments = true := by
          simpa only [named, Bool.true_and, Bool.not_eq_true', Bool.not_eq_false] using notRefused
        simp only [bind_eq_ok, pure_eq_ok] at ran
        obtain ⟨_, c₄, advanced, _, c₅, advanced', value, c₆, ranValue, span, c₇, spanned, same,
          rfl⟩ := ran
        obtain ⟨-, rfl⟩ := advance_of_kind_eq_ok rest startKind advanced
        obtain ⟨-, rfl⟩ := advance_of_kind_eq_ok rfl signKind advanced'
        obtain ⟨ts, tookValue, phrase, -⟩ :=
          expression_sound n UnaryOperator.one_le_precedence ranValue
        obtain ⟨rfl, rfl⟩ := spanFrom_eq_ok.1 spanned
        cases same
        have took : Took (start :: sign :: ts) c₂ c₇ :=
          took_cons.2 ⟨_, .of_rest rest, took_cons.2 ⟨_, .of_rest rfl, tookValue⟩⟩
        rw [took.through_eq]
        exact ⟨_, took, .inr ⟨_, .mk allowed startKind signKind phrase, rfl, rfl⟩⟩
      · obtain ⟨ts, took, given⟩ := positionalRead ran
        exact ⟨ts, took, .inl given⟩
    · rw [bind_eq_ok] at ran
      obtain ⟨named, c₃, isAssign, ran⟩ := ran
      obtain ⟨rfl, rfl⟩ := pure_eq_ok.1 isAssign
      rw [ite_eq_ok] at ran
      rcases ran with ⟨refused, -⟩ | ⟨-, ran⟩
      · cases refused
      rw [ite_eq_ok] at ran
      rcases ran with ⟨named, -⟩ | ⟨-, ran⟩
      · cases named
      obtain ⟨ts, took, given⟩ := positionalRead ran
      exact ⟨ts, took, .inl given⟩

end

/-! ## Parts of statements -/

theorem skipSemicolon_sound {c c' : Cursor} {u : Unit} (ran : skipSemicolon c = .ok (u, c')) :
    ∃ ts, Took ts c c' ∧ Phrase.Separator ts := by
  rw [skipSemicolon, bind_eq_ok] at ran
  obtain ⟨t, c₁, peeked, ran⟩ := ran
  obtain ⟨item, items, rest, rfl, rfl⟩ := peek_eq_ok peeked
  rw [ite_eq_ok] at ran
  rcases ran with ⟨kind, ran⟩ | ⟨-, ran⟩
  · simp only [bind_eq_ok, pure_eq_ok] at ran
    obtain ⟨_, c₂, advanced, -, rfl⟩ := ran
    obtain ⟨-, rfl⟩ := advance_of_kind_eq_ok rest kind advanced
    exact ⟨[item], .of_rest rest, .semicolon kind⟩
  · obtain ⟨-, rfl⟩ := pure_eq_ok.1 ran
    exact ⟨[], .refl _, .none⟩

theorem closing_sound {start : Token} {kind : TokenKind} {expected : String} {c c' : Cursor}
    {span : Span} (ran : closing start kind expected c = .ok (span, c'))
    (notEnd : kind ≠ .endOfInput := by decide) :
    ∃ item, Took [item] c c' ∧ item.kind = kind ∧
      span = start.span.upTo (c'.previous.getD start).span := by
  simp only [closing, bind_eq_ok] at ran
  obtain ⟨_, c₁, closed, spanned⟩ := ran
  obtain ⟨item, took, itemKind, -⟩ := expect_eq_ok closed notEnd
  obtain ⟨rfl, rfl⟩ := spanFrom_eq_ok.1 spanned
  exact ⟨item, took, itemKind, rfl⟩

theorem assignment_sound {n : Nat} {start : Token} {mode : AssignMode} {c c' : Cursor} {s : Stmt}
    (ran : assignment g n start mode c = .ok (s, c')) :
    ∃ ts name e, Took ts c c' ∧ Phrase.Target g ts name e ∧
      s = .assign (start.span.upTo (c'.previous.getD start).span) mode name e := by
  simp only [assignment, bind_eq_ok, pure_eq_ok] at ran
  obtain ⟨_, c₁, named, _, c₂, signed, value, c₃, ranValue, span, c₄, spanned, rfl, rfl⟩ := ran
  obtain ⟨name, tookName, nameKind, rfl⟩ := expect_eq_ok named
  obtain ⟨sign, tookSign, signKind, -⟩ := expect_eq_ok signed
  obtain ⟨ts, tookValue, phrase, -⟩ := expression_sound n UnaryOperator.one_le_precedence ranValue
  obtain ⟨rfl, rfl⟩ := spanFrom_eq_ok.1 spanned
  exact ⟨name :: sign :: ts, _, _, tookName.trans (tookSign.trans tookValue),
    .mk nameKind signKind phrase, rfl⟩

theorem loopStep_sound {n : Nat} {c c' : Cursor} {step : Option Expr}
    (ran : loopStep g n c = .ok (step, c')) : ∃ ts, Took ts c c' ∧ Phrase.LoopStep g ts step := by
  rw [loopStep, bind_eq_ok] at ran
  obtain ⟨t, c₁, peeked, ran⟩ := ran
  obtain ⟨word, items, rest, rfl, rfl⟩ := peek_eq_ok peeked
  rw [ite_eq_ok] at ran
  rcases ran with ⟨wordKind, ran⟩ | ⟨-, ran⟩
  · simp only [bind_eq_ok, pure_eq_ok] at ran
    obtain ⟨_, c₂, advanced, value, c₃, ranValue, rfl, rfl⟩ := ran
    obtain ⟨-, rfl⟩ := advance_of_kind_eq_ok rest wordKind advanced
    obtain ⟨ts, took, phrase, -⟩ := expression_sound n UnaryOperator.one_le_precedence ranValue
    exact ⟨word :: ts, took_cons.2 ⟨_, .of_rest rest, took⟩, .given wordKind phrase⟩
  · obtain ⟨rfl, rfl⟩ := pure_eq_ok.1 ran
    exact ⟨[], .refl _, .none⟩

/-- Two stretches that begin alike up to a token begin with the same token. -/
theorem head_eq_of_append_eq {α : Type} {us items items' : List α} {last closing : α} (vs : List α)
    (same : us ++ last :: items = closing :: items') : ∃ ws, us ++ last :: vs = closing :: ws := by
  cases us <;> cases same <;> exact ⟨_, rfl⟩

/-! ## Statements -/

mutual

theorem statements_sound : ∀ (n : Nat) {ends : List TokenKind} {c c' : Cursor} {ss : List Stmt},
    statements g n ends c = .ok (ss, c') →
      ∃ ts closing items, Took ts c c' ∧ c'.rest = closing :: items ∧ closing.kind ∈ ends ∧
        Phrase.Statements g ts closing ss
  | 0, _, _, _, _, ran => by
    rw [statements] at ran
    exact absurd ran halt_ne_ok
  | n + 1, ends, c, c', ss, ran => by
    simp only [statements, bind_eq_ok] at ran
    obtain ⟨comments, c₁, looked, t, c₂, peeked, ran⟩ := ran
    obtain ⟨first, items, rest, rfl, rfl⟩ := peekComments_eq_ok looked
    obtain ⟨_, _, rest', rfl, rfl⟩ := peek_eq_ok peeked
    cases rest.symm.trans rest'
    rw [ite_eq_ok] at ran
    rcases ran with ⟨isEnd, ran⟩ | ⟨-, ran⟩
    · obtain ⟨rfl, rfl⟩ := pure_eq_ok.1 ran
      exact ⟨[], first, items, .refl _, rest, isEnd, .nil⟩
    rw [ite_eq_ok] at ran
    rcases ran with ⟨-, ran⟩ | ⟨-, ran⟩
    · exact absurd ran unexpected_ne_ok
    simp only [bind_eq_ok, pure_eq_ok] at ran
    obtain ⟨s, c₃, ranFirst, _, c₄, skipped, others, c₅, ranOthers, rfl, rfl⟩ := ran
    obtain ⟨_, ts, tookFirst, phrase⟩ := statement_sound n ranFirst
    cases rest.symm.trans tookFirst.rest_cons
    obtain ⟨separator, tookSeparator, separated⟩ := skipSemicolon_sound skipped
    obtain ⟨us, closing, items', tookOthers, rest', isEnd, others⟩ := statements_sound n ranOthers
    exact ⟨_, closing, items', tookFirst.trans (tookSeparator.trans tookOthers), rest', isEnd,
      .cons phrase separated others⟩

theorem block_sound : ∀ (n : Nat) {ends : List TokenKind} {c c' : Cursor} {b : Block},
    block g n ends c = .ok (b, c') →
      ∃ ts closing items, Took ts c c' ∧ c'.rest = closing :: items ∧ closing.kind ∈ ends ∧
        Phrase.Statements g ts closing b.statements ∧ Phrase.Body g c.previous ts closing b
  | 0, _, _, _, _, ran => by
    rw [block] at ran
    exact absurd ran halt_ne_ok
  | n + 1, ends, c, c', b, ran => by
    simp only [block, bind_eq_ok, pure_eq_ok] at ran
    obtain ⟨start, c₁, peeked, ss, c₂, ranBody, span, c₃, spanned, rfl, rfl⟩ := ran
    obtain ⟨first, items, rest, rfl, rfl⟩ := peek_eq_ok peeked
    obtain ⟨ts, closing, items', took, rest', isEnd, phrase⟩ := statements_sound n ranBody
    obtain ⟨rfl, rfl⟩ := spanFrom_eq_ok.1 spanned
    have firstEq : ts.head?.getD closing = first := by
      have both := took.rest.symm.trans rest
      rw [rest'] at both
      cases ts <;> cases both <;> rfl
    have spanEq : first.token.span.upTo (c₃.previous.getD first.token).span =
        blockSpan c₁.previous ts closing := by
      rw [blockSpan, firstEq, Token.through, took.previous]
    rw [spanEq]
    exact ⟨ts, closing, items', took, rest', isEnd, phrase, .mk phrase⟩

theorem branch_sound : ∀ (n : Nat) {word : Item} {c₀ c c' : Cursor} {b : Branch},
    Took [word] c₀ c → branch g n word.token c = .ok (b, c') →
      ∃ ts closing items, Took ts c c' ∧ c'.rest = closing :: items ∧
        closing.kind ∈ branchEnds ∧ Phrase.Guarded g word ts closing b
  | 0, _, _, _, _, _, _, ran => by
    rw [branch] at ran
    exact absurd ran halt_ne_ok
  | n + 1, word, c₀, c, c', b, tookWord, ran => by
    simp only [branch, bind_eq_ok, pure_eq_ok] at ran
    obtain ⟨condition, c₁, ranTest, _, c₂, worded, body, c₃, ranBody, span, c₄, spanned, rfl,
      rfl⟩ := ran
    obtain ⟨cs, tookTest, test, -⟩ := expression_sound n UnaryOperator.one_le_precedence ranTest
    obtain ⟨thenWord, tookThen, thenKind, -⟩ := expect_eq_ok worded
    obtain ⟨ts, closing, items, tookBody, rest, isEnd, -, inner⟩ := block_sound n ranBody
    obtain ⟨rfl, rfl⟩ := spanFrom_eq_ok.1 spanned
    rw [tookThen.previous, lastToken_singleton] at inner
    have took : Took (cs ++ thenWord :: ts) c c₄ := tookTest.trans (tookThen.trans tookBody)
    rw [Took.through_eq (tookWord.trans took)]
    exact ⟨_, closing, items, took, rest, isEnd, .mk test thenKind inner⟩

theorem furtherBranches_sound : ∀ (n : Nat) {c c' : Cursor} {bs : List Branch},
    furtherBranches g n c = .ok (bs, c') →
      ∃ ts, Took ts c c' ∧ ∀ {closing : Item} {items us : List Item} {otherwise : Option Block},
        c'.rest = closing :: items → Phrase.Alternatives g (closing :: us) [] otherwise →
          Phrase.Alternatives g (ts ++ closing :: us) bs otherwise
  | 0, _, _, _, ran => by
    rw [furtherBranches] at ran
    exact absurd ran halt_ne_ok
  | n + 1, c, c', bs, ran => by
    rw [furtherBranches, bind_eq_ok] at ran
    obtain ⟨t, c₁, peeked, ran⟩ := ran
    obtain ⟨word, items, rest, rfl, rfl⟩ := peek_eq_ok peeked
    rw [ite_eq_ok] at ran
    rcases ran with ⟨wordKind, ran⟩ | ⟨-, ran⟩
    · simp only [bind_eq_ok, pure_eq_ok] at ran
      obtain ⟨_, c₂, advanced, b, c₃, ranFirst, bs, c₄, ranOthers, rfl, rfl⟩ := ran
      obtain ⟨rfl, rfl⟩ := advance_of_kind_eq_ok rest wordKind advanced
      obtain ⟨ts, closing, items', tookFirst, rest', -, first⟩ :=
        branch_sound n (.of_rest rest) ranFirst
      obtain ⟨us, tookOthers, others⟩ := furtherBranches_sound n ranOthers
      refine ⟨word :: (ts ++ us),
        took_cons.2 ⟨_, .of_rest rest, tookFirst.trans tookOthers⟩, ?_⟩
      intro last items'' vs otherwise restEnd ending
      have joined := others restEnd ending
      -- the branch is closed by the first token of what follows it
      obtain ⟨ws, headEq⟩ := head_eq_of_append_eq vs
        (restEnd ▸ tookOthers.rest.symm.trans rest')
      rw [headEq] at joined
      have whole := Phrase.Alternatives.guarded wordKind first joined
      rwa [← headEq, ← List.append_assoc] at whole
    · obtain ⟨rfl, rfl⟩ := pure_eq_ok.1 ran
      exact ⟨[], .refl _, fun _ ending => ending⟩

theorem otherwise_sound : ∀ (n : Nat) {c c₁ c' : Cursor} {otherwise : Option Block} {t : Token}
    {expected : String}, Parser.otherwise g n c = .ok (otherwise, c₁) →
      expect .endifWord expected c₁ = .ok (t, c') →
      ∃ closing us, Took (closing :: us) c c' ∧
        Phrase.Alternatives g (closing :: us) [] otherwise
  | 0, _, _, _, _, _, _, ran, _ => by
    rw [Parser.otherwise] at ran
    exact absurd ran halt_ne_ok
  | n + 1, c, c₁, c', otherwise, t, expected, ran, closed => by
    obtain ⟨closing, tookClosing, closingKind, -⟩ := expect_eq_ok closed
    rw [Parser.otherwise, bind_eq_ok] at ran
    obtain ⟨t, c₂, peeked, ran⟩ := ran
    obtain ⟨word, items, rest, rfl, rfl⟩ := peek_eq_ok peeked
    rw [ite_eq_ok] at ran
    rcases ran with ⟨wordKind, ran⟩ | ⟨-, ran⟩
    · simp only [bind_eq_ok, pure_eq_ok] at ran
      obtain ⟨_, c₃, advanced, b, c₄, ranBody, span, c₅, spanned, rfl, rfl⟩ := ran
      obtain ⟨rfl, rfl⟩ := advance_of_kind_eq_ok rest wordKind advanced
      obtain ⟨ts, closing', items', tookBody, rest', -, phrase, -⟩ := block_sound n ranBody
      obtain ⟨rfl, rfl⟩ := spanFrom_eq_ok.1 spanned
      cases rest'.symm.trans tookClosing.rest_cons
      have took : Took (word :: ts) c₂ c₅ := took_cons.2 ⟨_, .of_rest rest, tookBody⟩
      rw [took.through_eq]
      exact ⟨word, _, took.trans tookClosing, .otherwise wordKind phrase closingKind⟩
    · obtain ⟨rfl, rfl⟩ := pure_eq_ok.1 ran
      exact ⟨closing, [], tookClosing, .done closingKind⟩

theorem statement_sound : ∀ (n : Nat) {c c' : Cursor} {s : Stmt},
    statement g n c = .ok (s, c') →
      ∃ first ts, Took (first :: ts) c c' ∧ Phrase.Statement g (first :: ts) s
  | 0, _, _, _, ran => by
    rw [statement] at ran
    exact absurd ran halt_ne_ok
  | n + 1, c, c', s, ran => by
    rw [statement, bind_eq_ok] at ran
    obtain ⟨t, c₁, peeked, ran⟩ := ran
    obtain ⟨word, items, rest, rfl, rfl⟩ := peek_eq_ok peeked
    have tookWord : Took [word] c₁ ⟨items, some word.token⟩ := .of_rest rest
    cases kind : word.token.kind <;> simp only [kind] at ran
    case ifWord =>
      simp only [closing, bind_eq_ok, pure_eq_ok] at ran
      obtain ⟨_, c₂, advanced, b, c₃, ranFirst, bs, c₄, ranOthers, last, c₅, ranLast, span, c₆,
        ⟨_, c₇, closed, spanned⟩, rfl, rfl⟩ := ran
      obtain ⟨-, rfl⟩ := advance_of_kind_eq_ok rest kind advanced
      obtain ⟨ts, closing, items', tookFirst, rest', -, first⟩ := branch_sound n tookWord ranFirst
      obtain ⟨us, tookOthers, others⟩ := furtherBranches_sound n ranOthers
      obtain ⟨ending, vs, tookEnding, endingPhrase⟩ := otherwise_sound n ranLast closed
      have joined := others tookEnding.rest_cons endingPhrase
      obtain ⟨rfl, rfl⟩ := spanFrom_eq_ok.1 spanned
      have tookRest : Took (us ++ ending :: vs) c₃ c₆ := tookOthers.trans tookEnding
      obtain ⟨ws, headEq⟩ := head_eq_of_append_eq vs
        (tookEnding.rest_cons ▸ tookOthers.rest.symm.trans rest')
      rw [headEq] at joined tookRest
      have took : Took (word :: (ts ++ closing :: ws)) c₁ c₆ :=
        tookWord.trans (tookFirst.trans tookRest)
      rw [took.through_eq]
      exact ⟨word, _, took, .choice kind first joined⟩
    case whileWord =>
      rw [bind_eq_ok] at ran
      obtain ⟨_, c₂, advanced, ran⟩ := ran
      obtain ⟨-, rfl⟩ := advance_of_kind_eq_ok rest kind advanced
      rw [ite_eq_ok] at ran
      rcases ran with ⟨-, ran⟩ | ⟨notRefused, ran⟩
      · exact absurd ran halt_ne_ok
      simp only [bind_eq_ok, pure_eq_ok] at ran
      obtain ⟨condition, c₃, ranTest, _, c₄, worded, body, c₅, ranBody, span, c₆, closed, rfl,
        rfl⟩ := ran
      have allowed : g.loops = true := by
        simpa only [Bool.not_eq_true', Bool.not_eq_false] using notRefused
      obtain ⟨cs, tookTest, test, -⟩ := expression_sound n UnaryOperator.one_le_precedence ranTest
      obtain ⟨doWord, tookDo, doKind, -⟩ := expect_eq_ok worded
      obtain ⟨ts, closing, items', tookBody, rest', -, -, inner⟩ := block_sound n ranBody
      obtain ⟨closing', tookClosing, closingKind, rfl⟩ := closing_sound closed
      cases rest'.symm.trans tookClosing.rest_cons
      rw [tookDo.previous, lastToken_singleton] at inner
      have took : Took (word :: (cs ++ doWord :: (ts ++ [closing]))) c₁ c₆ :=
        tookWord.trans (tookTest.trans (tookDo.trans (tookBody.trans tookClosing)))
      rw [took.through_eq]
      exact ⟨word, _, took, .whileLoop allowed kind test doKind inner closingKind⟩
    case forWord =>
      rw [bind_eq_ok] at ran
      obtain ⟨_, c₂, advanced, ran⟩ := ran
      obtain ⟨-, rfl⟩ := advance_of_kind_eq_ok rest kind advanced
      rw [ite_eq_ok] at ran
      rcases ran with ⟨-, ran⟩ | ⟨notRefused, ran⟩
      · exact absurd ran halt_ne_ok
      simp only [bind_eq_ok, pure_eq_ok] at ran
      obtain ⟨_, c₃, counted, _, c₄, signed, first, c₅, ranFirst, _, c₆, toRead, last, c₇, ranLast,
        step, c₈, ranStep, _, c₉, worded, body, c₁₀, ranBody, span, c₁₁, closed, rfl, rfl⟩ := ran
      have allowed : g.loops = true := by
        simpa only [Bool.not_eq_true', Bool.not_eq_false] using notRefused
      obtain ⟨counter, tookCounter, counterKind, rfl⟩ := expect_eq_ok counted
      obtain ⟨sign, tookSign, signKind, -⟩ := expect_eq_ok signed
      obtain ⟨fs, tookFirst, start, -⟩ :=
        expression_sound n UnaryOperator.one_le_precedence ranFirst
      obtain ⟨toWord, tookTo, toKind, -⟩ := expect_eq_ok toRead
      obtain ⟨ls, tookLast, stop, -⟩ := expression_sound n UnaryOperator.one_le_precedence ranLast
      obtain ⟨ss, tookStep, increment⟩ := loopStep_sound ranStep
      obtain ⟨doWord, tookDo, doKind, -⟩ := expect_eq_ok worded
      obtain ⟨ts, closing, items', tookBody, rest', -, -, inner⟩ := block_sound n ranBody
      obtain ⟨closing', tookClosing, closingKind, rfl⟩ := closing_sound closed
      cases rest'.symm.trans tookClosing.rest_cons
      rw [tookDo.previous, lastToken_singleton] at inner
      have tookEnd : Took (doWord :: (ts ++ [closing])) c₈ c₁₁ :=
        tookDo.trans (tookBody.trans tookClosing)
      have took : Took (word :: counter :: sign :: (fs ++ toWord :: (ls ++ (ss ++ doWord ::
          (ts ++ [closing]))))) c₁ c₁₁ :=
        tookWord.trans (tookCounter.trans (tookSign.trans (tookFirst.trans (tookTo.trans
          (tookLast.trans (tookStep.trans tookEnd))))))
      rw [took.through_eq]
      exact ⟨word, _, took,
        .forLoop allowed kind counterKind signKind start toKind stop increment doKind inner
          closingKind⟩
    case beginWord =>
      simp only [bind_eq_ok, pure_eq_ok] at ran
      obtain ⟨_, c₂, advanced, body, c₃, ranBody, span, c₄, closed, rfl, rfl⟩ := ran
      obtain ⟨-, rfl⟩ := advance_of_kind_eq_ok rest kind advanced
      obtain ⟨ts, closing, items', tookBody, rest', -, inner, -⟩ := block_sound n ranBody
      obtain ⟨closing', tookClosing, closingKind, rfl⟩ := closing_sound closed
      cases rest'.symm.trans tookClosing.rest_cons
      have took : Took (word :: (ts ++ [closing])) c₁ c₄ :=
        tookWord.trans (tookBody.trans tookClosing)
      rw [took.through_eq]
      exact ⟨word, _, took, .block kind inner closingKind⟩
    case letWord =>
      rw [bind_eq_ok] at ran
      obtain ⟨_, c₂, advanced, ran⟩ := ran
      obtain ⟨-, rfl⟩ := advance_of_kind_eq_ok rest kind advanced
      obtain ⟨ts, name, e, tookTarget, target, rfl⟩ := assignment_sound ran
      have took : Took (word :: ts) c₁ c' := tookWord.trans tookTarget
      rw [took.through_eq]
      exact ⟨word, ts, took, .letAssign kind target⟩
    case setWord =>
      rw [bind_eq_ok] at ran
      obtain ⟨_, c₂, advanced, ran⟩ := ran
      obtain ⟨-, rfl⟩ := advance_of_kind_eq_ok rest kind advanced
      obtain ⟨ts, name, e, tookTarget, target, rfl⟩ := assignment_sound ran
      have took : Took (word :: ts) c₁ c' := tookWord.trans tookTarget
      rw [took.through_eq]
      exact ⟨word, ts, took, .setAssign kind target⟩
    case returnWord =>
      simp only [bind_eq_ok, pure_eq_ok] at ran
      obtain ⟨_, c₂, advanced, rfl, rfl⟩ := ran
      obtain ⟨-, rfl⟩ := advance_of_kind_eq_ok rest kind advanced
      exact ⟨word, [], tookWord, .ret kind⟩
    case identifier =>
      rw [bind_eq_ok] at ran
      obtain ⟨second, c₂, peekedSecond, ran⟩ := ran
      obtain ⟨_, _, _, _, -, rfl⟩ := peekSecond_eq_ok peekedSecond
      rw [ite_eq_ok] at ran
      rcases ran with ⟨-, ran⟩ | ⟨-, ran⟩
      · obtain ⟨ts, name, e, took, target, rfl⟩ := assignment_sound ran
        cases target with
        | mk nameKind signKind value =>
          cases rest.symm.trans took.rest_cons
          rw [took.through_eq]
          exact ⟨word, _, took, .assign (.mk nameKind signKind value)⟩
      rw [ite_eq_ok] at ran
      rcases ran with ⟨-, ran⟩ | ⟨-, ran⟩
      · simp only [bind_eq_ok, pure_eq_ok] at ran
        obtain ⟨f, c₃, ranCall, rfl, rfl⟩ := ran
        obtain ⟨ts, took, phrase⟩ := call_sound n ranCall
        cases phrase with
        | bare nameKind openingKind closingKind =>
          exact ⟨_, _, took, .call (.bare nameKind openingKind closingKind)⟩
        | applied nameKind openingKind closingKind inner =>
          exact ⟨_, _, took, .call (.applied nameKind openingKind closingKind inner)⟩
      · rw [bind_eq_ok] at ran
        obtain ⟨_, c₃, -, ran⟩ := ran
        exact absurd ran unexpected_ne_ok
    all_goals exact absurd ran unexpected_ne_ok

end

/-! ## Whole scripts -/

/-- The tree of a script comes from the tokens up to one that ends the input. -/
theorem script_sound {n : Nat} {items : List Item} {c' : Cursor} {b : Block}
    (ran : script g n ⟨items, none⟩ = .ok (b, c')) :
    ∃ body closing others, items = body ++ closing :: others ∧ closing.kind = .endOfInput ∧
      Phrase.Body g none body closing b := by
  simp only [script, bind_eq_ok, pure_eq_ok] at ran
  obtain ⟨b, c₁, ranBody, _, c₂, -, rfl, rfl⟩ := ran
  obtain ⟨body, closing, others, took, rest, isEnd, -, phrase⟩ := block_sound n ranBody
  refine ⟨body, closing, others, ?_, List.mem_singleton.1 isEnd, phrase⟩
  rw [← rest]
  exact took.rest

end

end InstallScript
