import InstallScript.Proofs.Syntax.Phrase

/-!
What one step of the parser reads. `Took ts c c'` says that the stretch `ts` lies between two places
of the parser; stretches that lie one behind the other are joined by `took_append`, and each basic
step is described by the stretch that it takes.
-/

namespace InstallScript

open InstallScript.Parser

/-! ## Stretches between two places -/

theorem lastToken_append (before : Option Token) (ts us : List Item) :
    lastToken before (ts ++ us) = lastToken (lastToken before ts) us := by
  unfold lastToken
  rw [List.getLast?_append]
  cases us.getLast? <;> simp

@[simp] theorem lastToken_nil (before : Option Token) : lastToken before [] = before := by
  simp [lastToken]

@[simp] theorem lastToken_singleton (before : Option Token) (item : Item) :
    lastToken before [item] = some item.token := rfl

theorem lastToken_cons (before : Option Token) (item : Item) (ts : List Item) :
    lastToken before (item :: ts) = lastToken (some item.token) ts :=
  lastToken_append before [item] ts

/-- The parser goes from one place to another over a stretch of tokens. -/
structure Took (ts : List Item) (c c' : Cursor) : Prop where
  rest : c.rest = ts ++ c'.rest
  previous : c'.previous = lastToken c.previous ts

theorem Took.refl (c : Cursor) : Took [] c c := ⟨rfl, by simp⟩

theorem Took.eq_of_nil {c c' : Cursor} (took : Took [] c c') : c' = c := by
  rcases c with ⟨rest, previous⟩
  rcases c' with ⟨rest', previous'⟩
  obtain ⟨restEq, previousEq⟩ := took
  simp only [List.nil_append, lastToken_nil] at restEq previousEq
  rw [restEq, previousEq]

theorem Took.trans {ts us : List Item} {c c' c'' : Cursor} (left : Took ts c c')
    (right : Took us c' c'') : Took (ts ++ us) c c'' :=
  ⟨by rw [left.rest, right.rest, List.append_assoc],
    by rw [right.previous, left.previous, lastToken_append]⟩

theorem took_append {ts us : List Item} {c c'' : Cursor} :
    Took (ts ++ us) c c'' ↔ ∃ c', Took ts c c' ∧ Took us c' c'' := by
  constructor
  · intro took
    refine ⟨⟨us ++ c''.rest, lastToken c.previous ts⟩, ⟨?_, rfl⟩, ⟨rfl, ?_⟩⟩
    · rw [took.rest, List.append_assoc]
    · rw [took.previous, lastToken_append]
  · rintro ⟨c', left, right⟩
    exact left.trans right

theorem took_cons {item : Item} {ts : List Item} {c c'' : Cursor} :
    Took (item :: ts) c c'' ↔ ∃ c', Took [item] c c' ∧ Took ts c' c'' := by
  rw [← took_append, List.singleton_append]

/-- The place behind one token. -/
theorem Took.of_rest {item : Item} {items : List Item} {c : Cursor}
    (rest : c.rest = item :: items) : Took [item] c ⟨items, some item.token⟩ :=
  ⟨rest, rfl⟩

theorem Took.rest_cons {item : Item} {ts : List Item} {c c' : Cursor}
    (took : Took (item :: ts) c c') : c.rest = item :: (ts ++ c'.rest) := took.rest

/-- The stretch up to the last token read is the one that the phrase covers. -/
theorem Took.through_eq {item : Item} {ts : List Item} {c c' : Cursor}
    (took : Took (item :: ts) c c') :
    item.token.span.upTo (c'.previous.getD item.token).span = item.token.through none ts := by
  rw [took.previous, lastToken_cons, Token.through]
  unfold lastToken
  cases ts.getLast? <;> rfl

/-! ## What the basic steps do -/

section

variable {α β : Type} {c c' c'' : Cursor}

theorem bind_eq_ok {p : Parser α} {f : α → Parser β} {b : β} :
    (p >>= f) c = .ok (b, c'') ↔ ∃ a c', p c = .ok (a, c') ∧ f a c' = .ok (b, c'') := by
  rw [bind_apply]
  constructor
  · intro ran
    split at ran
    · exact ⟨_, _, ‹_›, ran⟩
    · cases ran
  · rintro ⟨a, c', first, second⟩
    rw [first]
    exact second

theorem bind_of_ok {p : Parser α} {f : α → Parser β} {a : α} (ran : p c = .ok (a, c')) :
    (p >>= f) c = f a c' := by
  rw [bind_apply, ran]

theorem pure_eq_ok {a b : α} : (Pure.pure a : Parser α) c = .ok (b, c') ↔ a = b ∧ c = c' := by
  rw [pure_apply, Except.ok.injEq, Prod.mk.injEq]

theorem pure_run {a : α} : Parser.pure a c = .ok (a, c) := rfl

theorem halt_ne_ok {h : Halt} {a : α} : (halt h : Parser α) c ≠ .ok (a, c') := nofun

theorem ite_eq_ok {P : Prop} [Decidable P] {p q : Parser α} {a : α} :
    (if P then p else q : Parser α) c = .ok (a, c') ↔
      P ∧ p c = .ok (a, c') ∨ ¬ P ∧ q c = .ok (a, c') := by
  by_cases holds : P
  · rw [if_pos holds]
    exact ⟨fun ran => .inl ⟨holds, ran⟩, fun h => h.elim (·.2) fun h => absurd holds h.1⟩
  · rw [if_neg holds]
    exact ⟨fun ran => .inr ⟨holds, ran⟩, fun h => h.elim (fun h => absurd h.1 holds) (·.2)⟩

theorem unexpected_ne_ok {expected : String} {a : α} :
    (unexpected expected : Parser α) c ≠ .ok (a, c') := by
  intro ran
  rw [unexpected, bind_eq_ok] at ran
  obtain ⟨t, d, -, ran⟩ := ran
  rcases ite_eq_ok.1 ran with ⟨-, ran⟩ | ⟨-, ran⟩ <;> exact halt_ne_ok ran

theorem peek_eq_ok {t : Token} :
    peek c = .ok (t, c') → ∃ item items, c.rest = item :: items ∧ item.token = t ∧ c' = c := by
  intro ran
  unfold peek at ran
  split at ran
  · cases ran
  · cases ran
    exact ⟨_, _, ‹_›, rfl, rfl⟩

theorem peek_of_rest {item : Item} {items : List Item} (rest : c.rest = item :: items) :
    peek c = .ok (item.token, c) := by
  unfold peek
  rw [rest]

theorem peekSecond_eq_ok {t : Token} : peekSecond c = .ok (t, c') →
    ∃ first second items, c.rest = first :: second :: items ∧ second.token = t ∧ c' = c := by
  intro ran
  unfold peekSecond at ran
  split at ran
  · cases ran
    exact ⟨_, _, _, ‹_›, rfl, rfl⟩
  · cases ran

theorem peekSecond_of_rest {first second : Item} {items : List Item}
    (rest : c.rest = first :: second :: items) : peekSecond c = .ok (second.token, c) := by
  unfold peekSecond
  rw [rest]

theorem peekComments_eq_ok {ts : List Token} : peekComments c = .ok (ts, c') →
    ∃ item items, c.rest = item :: items ∧ item.comments = ts ∧ c' = c := by
  intro ran
  unfold peekComments at ran
  split at ran
  · cases ran
  · cases ran
    exact ⟨_, _, ‹_›, rfl, rfl⟩

theorem peekComments_of_rest {item : Item} {items : List Item} (rest : c.rest = item :: items) :
    peekComments c = .ok (item.comments, c) := by
  unfold peekComments
  rw [rest]

/-- Any token but the one that ends the input is taken. -/
theorem advance_of_took {item : Item} (took : Took [item] c c') (kind : item.kind ≠ .endOfInput) :
    advance c = .ok (item.token, c') := by
  unfold advance
  rw [took.rest_cons]
  have notEnd : ¬ item.token.kind = .endOfInput := kind
  simp only [if_neg notEnd, List.nil_append]
  rcases c' with ⟨rest, previous⟩
  rw [show previous = some item.token from took.previous]

theorem advance_eq_ok {t : Token} {item : Item} {items : List Item}
    (rest : c.rest = item :: items) (kind : item.kind ≠ .endOfInput) :
    advance c = .ok (t, c') → t = item.token ∧ c' = ⟨items, some item.token⟩ := by
  intro ran
  rw [advance_of_took (.of_rest rest) kind] at ran
  cases ran
  exact ⟨rfl, rfl⟩

/-- As `advance_of_took`, by the kind that the token is known to have. -/
theorem advance_of_kind {item : Item} {kind : TokenKind} (took : Took [item] c c')
    (itemKind : item.kind = kind) (notEnd : kind ≠ .endOfInput := by decide) :
    advance c = .ok (item.token, c') :=
  advance_of_took took (itemKind ▸ notEnd)

theorem advance_of_kind_eq_ok {t : Token} {item : Item} {items : List Item} {kind : TokenKind}
    (rest : c.rest = item :: items) (itemKind : item.kind = kind)
    (ran : advance c = .ok (t, c')) (notEnd : kind ≠ .endOfInput := by decide) :
    t = item.token ∧ c' = ⟨items, some item.token⟩ :=
  advance_eq_ok rest (itemKind ▸ notEnd) ran

theorem expect_of_took {kind : TokenKind} {expected : String} {item : Item}
    (took : Took [item] c c') (itemKind : item.kind = kind)
    (notEnd : kind ≠ .endOfInput := by decide) :
    expect kind expected c = .ok (item.token, c') := by
  unfold expect
  have tokenKind : item.token.kind = kind := itemKind
  rw [bind_of_ok (peek_of_rest took.rest_cons), if_pos tokenKind]
  exact advance_of_kind took itemKind notEnd

theorem expect_eq_ok {kind : TokenKind} {expected : String} {t : Token}
    (ran : expect kind expected c = .ok (t, c')) (notEnd : kind ≠ .endOfInput := by decide) :
    ∃ item, Took [item] c c' ∧ item.kind = kind ∧ item.token = t := by
  rw [expect, bind_eq_ok] at ran
  obtain ⟨t', d, peeked, ran⟩ := ran
  obtain ⟨item, items, rest, rfl, rfl⟩ := peek_eq_ok peeked
  rcases ite_eq_ok.1 ran with ⟨itemKind, ran⟩ | ⟨-, ran⟩
  · obtain ⟨rfl, rfl⟩ := advance_eq_ok rest (fun h => notEnd (itemKind.symm.trans h)) ran
    exact ⟨item, .of_rest rest, itemKind, rfl⟩
  · exact absurd ran unexpected_ne_ok

/-- The end of the input is read, and stays at hand. -/
theorem expect_end {expected : String} {closing : Item} {items : List Item}
    (rest : c.rest = closing :: items) (isEnd : closing.kind = .endOfInput) :
    expect .endOfInput expected c =
      .ok (closing.token, ⟨closing :: items, some closing.token⟩) := by
  have endKind : closing.token.kind = .endOfInput := isEnd
  rw [expect, bind_of_ok (peek_of_rest rest), if_pos endKind]
  unfold advance
  rw [rest]
  simp only [if_pos endKind]

theorem expect_end_eq_ok {expected : String} {t : Token}
    (ran : expect .endOfInput expected c = .ok (t, c')) :
    ∃ closing items, c.rest = closing :: items ∧ closing.kind = .endOfInput := by
  rw [expect, bind_eq_ok] at ran
  obtain ⟨t', d, peeked, ran⟩ := ran
  obtain ⟨closing, items, rest, rfl, rfl⟩ := peek_eq_ok peeked
  rcases ite_eq_ok.1 ran with ⟨isEnd, -⟩ | ⟨-, ran⟩
  · exact ⟨closing, items, rest, isEnd⟩
  · exact absurd ran unexpected_ne_ok

theorem spanFrom_eq_ok {start : Token} {span : Span} : spanFrom start c = .ok (span, c') ↔
    span = start.span.upTo (c.previous.getD start).span ∧ c' = c := by
  unfold spanFrom
  rw [Except.ok.injEq, Prod.mk.injEq]
  exact ⟨fun ⟨left, right⟩ => ⟨left.symm, right.symm⟩, fun ⟨left, right⟩ => ⟨left.symm, right.symm⟩⟩

theorem spanFrom_of_took {item : Item} {ts : List Item} {c₀ : Cursor}
    (took : Took (item :: ts) c₀ c) :
    spanFrom item.token c = .ok (item.token.through none ts, c) :=
  spanFrom_eq_ok.2 ⟨took.through_eq.symm, rfl⟩

end

/-! ## Operators -/

theorem BinaryOperator.ofKind?_eq_some {kind : TokenKind} {o : BinaryOperator} :
    BinaryOperator.ofKind? kind = some o ↔ kind = o.kind := by
  constructor
  · intro found
    have := List.find?_some found
    exact (of_decide_eq_true this).symm
  · rintro rfl
    cases o <;> rfl

theorem UnaryOperator.ofKind?_eq_some {kind : TokenKind} {o : UnaryOperator} :
    UnaryOperator.ofKind? kind = some o ↔ kind = o.kind := by
  cases kind <;> cases o <;> simp [UnaryOperator.ofKind?, UnaryOperator.kind]

theorem BinaryOperator.precedence_lt (o : BinaryOperator) :
    o.precedence < UnaryOperator.precedence := by
  cases o <;> decide

theorem BinaryOperator.one_le_precedence (o : BinaryOperator) : 1 ≤ o.precedence := by
  cases o <;> decide

theorem UnaryOperator.one_le_precedence : 1 ≤ UnaryOperator.precedence := by decide

theorem BinaryOperator.kind_ne_end (o : BinaryOperator) : o.kind ≠ .endOfInput := by
  cases o <;> nofun

theorem UnaryOperator.kind_ne_end (o : UnaryOperator) : o.kind ≠ .endOfInput := by
  cases o <;> nofun

theorem Phrase.ne_end_of_literal {kind : TokenKind} (literal : kind ∈ Phrase.literalKinds) :
    kind ≠ .endOfInput := by
  rintro rfl
  simp [Phrase.literalKinds] at literal

end InstallScript
