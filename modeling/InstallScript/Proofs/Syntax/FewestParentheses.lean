import InstallScript.Proofs.Syntax.Derived

/-!
How many parentheses an expression needs. The grammar puts an operand that holds together less
tightly than its place asks for in parentheses, and so does the printer, which writes no others. So
of all stretches of tokens that stand for an expression, the one that is printed has the fewest
opening parentheses (`Phrase.Expression.fewest`).
-/

namespace InstallScript

/-! ## Counting -/

/-- The number of opening parentheses among the tokens of a tree. -/
def openings (ms : List Mark) : Nat := ms.countP (·.kind = .leftParen)

/-- The number of opening parentheses among items. -/
def itemOpenings (ts : List Item) : Nat := ts.countP (·.kind = .leftParen)

theorem openings_append (ms ns : List Mark) : openings (ms ++ ns) = openings ms + openings ns :=
  List.countP_append

theorem openings_cons_of {kind : TokenKind} (value : TokenValue) (ms : List Mark)
    (other : kind ≠ .leftParen := by decide) : openings (.of kind value :: ms) = openings ms :=
  List.countP_cons_of_neg (by simp [Mark.of, other])

theorem openings_cons_word {kind : TokenKind} (ms : List Mark)
    (other : kind ≠ .leftParen := by decide) : openings (.word kind :: ms) = openings ms :=
  List.countP_cons_of_neg (by simp [Mark.word, other])

theorem openings_cons_opening (ms : List Mark) :
    openings (.word .leftParen :: ms) = openings ms + 1 :=
  List.countP_cons_of_pos (by simp [Mark.word])

theorem itemOpenings_append (ts us : List Item) :
    itemOpenings (ts ++ us) = itemOpenings ts + itemOpenings us :=
  List.countP_append

theorem itemOpenings_cons_opening {item : Item} (kind : item.kind = .leftParen) (ts : List Item) :
    itemOpenings (item :: ts) = itemOpenings ts + 1 :=
  List.countP_cons_of_pos (by simp [kind])

theorem itemOpenings_le_cons (item : Item) (ts : List Item) :
    itemOpenings ts ≤ itemOpenings (item :: ts) := by
  unfold itemOpenings
  rw [List.countP_cons]
  exact Nat.le_add_right _ _

theorem openings_literal (value : Literal) : openings [value.mark] = 0 := by
  cases value <;> exact openings_cons_of _ []

theorem openings_enclosed (tightness least : Nat) (ms : List Mark) :
    openings (enclosed tightness least ms) =
      openings ms + if tightness < least then 1 else 0 := by
  unfold enclosed
  split
  · rw [openings_cons_opening, openings_append]
    rfl
  · rfl

/-- Commas are no parentheses. -/
theorem openings_intercalate (groups : List (List Mark)) :
    openings ([.word .comma].intercalate groups) = (groups.map openings).sum := by
  induction groups with
  | nil => rfl
  | cons ms groups ih =>
    cases groups with
    | nil =>
      rw [List.intercalate_singleton, List.map_singleton, List.sum_singleton]
    | cons ns groups =>
      rw [List.intercalate_cons_cons, openings_append, openings_append, ih, List.map_cons,
        List.sum_cons]
      rfl

theorem openings_call (span : Span) (name : String) (es : List Expr) (ks : List KeywordArgument) :
    openings (Call.mk span name es ks).marks =
      ((exprMarks es ++ keywordMarks ks).map openings).sum + 1 := by
  rw [Call.marks, openings_cons_of, openings_cons_opening, openings_append,
    openings_intercalate]
  rfl

theorem openings_named (k : KeywordArgument) (ks : List KeywordArgument) :
    ((keywordMarks (k :: ks)).map openings).sum =
      openings k.value.marks + ((keywordMarks ks).map openings).sum := by
  obtain ⟨span, name, e⟩ := k
  rw [keywordMarks, List.map_cons, List.sum_cons, openings_cons_of, openings_cons_word]
  rfl

/-- How many opening parentheses an expression is written with where an operator asks for a
tightness. -/
def openingsAt (least : Nat) (e : Expr) : Nat := openings (enclosed e.tightness least e.marks)

theorem openingsAt_le {least : Nat} (e : Expr) :
    openingsAt least e ≤ openings e.marks + 1 := by
  rw [openingsAt, openings_enclosed]
  split <;> omega

theorem openingsAt_of_tight {least : Nat} {e : Expr} (tight : least ≤ e.tightness) :
    openingsAt least e = openings e.marks := by
  rw [openingsAt, openings_enclosed, if_neg (Nat.not_lt.2 tight), Nat.add_zero]

theorem openingsAt_mono {least level : Nat} (le : least ≤ level) (e : Expr) :
    openingsAt least e ≤ openingsAt level e := by
  rw [openingsAt, openings_enclosed, openingsAt, openings_enclosed]
  split
  · rw [if_pos (by omega)]
  · omega

theorem openingsAt_unary (span : Span) (o : UnaryOperator) (e : Expr) :
    openingsAt UnaryOperator.precedence (.unary span o e) =
      openingsAt UnaryOperator.precedence e := by
  have sign : o.kind ≠ .leftParen := by cases o <;> decide
  have tight : UnaryOperator.precedence ≤ (Expr.unary span o e).tightness := le_rfl
  rw [openingsAt_of_tight tight, Expr.marks, openings_cons_word _ sign, openingsAt]

theorem openingsAt_binary (span : Span) (o : BinaryOperator) (a b : Expr) :
    openingsAt o.precedence (.binary span o a b) =
      openingsAt o.precedence a + openingsAt (o.precedence + 1) b := by
  have sign : o.kind ≠ .leftParen := by cases o <;> decide
  have tight : o.precedence ≤ (Expr.binary span o a b).tightness := le_rfl
  rw [openingsAt_of_tight tight, Expr.marks, openings_append, openings_cons_word _ sign,
    openingsAt, openingsAt]

/-! ## Phrases -/

namespace Phrase

variable {g : Grammar}

mutual

/-- No stretch that stands for an expression has fewer parentheses than its printed form. -/
theorem Expression.fewest {level : Nat} {ts : List Item} {e : Expr} :
    Expression g level ts e → openingsAt level e ≤ itemOpenings ts
  | .binary tightness _ left right => by
    have ofLeft := left.fewest
    have ofRight := right.fewest
    subst tightness
    rw [openingsAt_binary, itemOpenings_append]
    exact Nat.add_le_add ofLeft (ofRight.trans (itemOpenings_le_cons _ _))
  | .tighter _ inner => (openingsAt_mono (Nat.le_succ _) _).trans inner.fewest
  | .operand inner => inner.fewest

theorem Operand.fewest {ts : List Item} {e : Expr} :
    Operand g ts e → openingsAt UnaryOperator.precedence e ≤ itemOpenings ts
  | .unary _ inner => by
    rw [openingsAt_unary]
    exact inner.fewest.trans (itemOpenings_le_cons _ _)
  | .literal _ => by
    rw [openingsAt_of_tight (Nat.le_succ _)]
    exact (openings_literal _).le.trans (Nat.zero_le _)
  | .variable _ => by
    rw [openingsAt_of_tight (Nat.le_succ _)]
    exact (openings_cons_of _ []).le.trans (Nat.zero_le _)
  | .call inner => by
    rw [openingsAt_of_tight (Nat.le_succ _)]
    exact inner.fewest
  | .parentheses (e := e) openingKind _ inner => by
    have within := inner.fewest
    rw [openingsAt_of_tight e.one_le_tightness] at within
    rw [itemOpenings_cons_opening openingKind, itemOpenings_append]
    exact (openingsAt_le e).trans (by omega)

theorem FunctionCall.fewest {ts : List Item} {c : Call} :
    FunctionCall g ts c → openings c.marks ≤ itemOpenings ts
  | .bare _ openingKind _ => by
    rw [openings_call]
    refine le_trans ?_ (itemOpenings_le_cons _ _)
    rw [itemOpenings_cons_opening openingKind]
    exact Nat.le_add_left _ _
  | .applied _ openingKind _ inner => by
    have within := inner.fewest
    rw [openings_call]
    refine le_trans ?_ (itemOpenings_le_cons _ _)
    rw [itemOpenings_cons_opening openingKind, itemOpenings_append]
    omega

theorem Arguments.fewest {ts : List Item} {es : List Expr} {ks : List KeywordArgument} :
    Arguments g ts es ks → ((exprMarks es ++ keywordMarks ks).map openings).sum ≤ itemOpenings ts
  | .lastPositional (e := e) argument => by
    have within := argument.fewest
    rw [openingsAt_of_tight e.one_le_tightness] at within
    exact (Nat.add_zero _).le.trans within
  | .lastNamed (k := k) argument => by
    have within := argument.fewest
    rw [exprMarks, List.nil_append, openings_named]
    exact (Nat.add_zero _).le.trans within
  | .positional (e := e) _ argument others => by
    have within := argument.fewest
    rw [openingsAt_of_tight e.one_le_tightness] at within
    rw [exprMarks, List.cons_append, List.map_cons, List.sum_cons, itemOpenings_append]
    exact Nat.add_le_add within (others.fewest.trans (itemOpenings_le_cons _ _))
  | .named _ argument others => by
    have behind := others.fewest
    rw [exprMarks, List.nil_append] at behind ⊢
    rw [openings_named, itemOpenings_append]
    exact Nat.add_le_add argument.fewest (behind.trans (itemOpenings_le_cons _ _))

theorem Named.fewest {ts : List Item} {k : KeywordArgument} :
    Named g ts k → openings k.value.marks ≤ itemOpenings ts
  | .mk (e := e) _ _ _ value => by
    have within := value.fewest
    rw [openingsAt_of_tight e.one_le_tightness] at within
    exact within.trans ((itemOpenings_le_cons _ _).trans (itemOpenings_le_cons _ _))

end

end Phrase

/-! ## Equal trees -/

theorem Expr.same_tightness {e e' : Expr} (same : e.same e' = true) :
    e.tightness = e'.tightness := by
  cases e <;> cases e' <;> simp [Expr.same] at same
  case binary.binary o _ _ _ p _ _ => rw [Expr.tightness, Expr.tightness, same.1.1]
  all_goals rfl

theorem openings_of_tight {level level' : Nat} {e e' : Expr} (tight : level ≤ e.tightness)
    (tight' : level' ≤ e'.tightness) (equal : openingsAt level e = openingsAt level' e') :
    openings e.marks = openings e'.marks := by
  rwa [openingsAt_of_tight tight, openingsAt_of_tight tight'] at equal

theorem openingsAt_congr {e e' : Expr} (same : e.same e' = true)
    (inside : openings e.marks = openings e'.marks) (least : Nat) :
    openingsAt least e = openingsAt least e' := by
  rw [openingsAt, openings_enclosed, openingsAt, openings_enclosed, inside,
    Expr.same_tightness same]

mutual

/-- Equal trees are written with equally many parentheses. -/
theorem Expr.openings_same : ∀ {e e' : Expr}, e.same e' = true →
    openings e.marks = openings e'.marks
  | .literal _ a, e', same => by
    cases e' with
    | literal _ b => exact (openings_literal a).trans (openings_literal b).symm
    | _ => exact absurd same (by simp [Expr.same])
  | .var _ _, e', same => by
    cases e' with
    | var _ _ => rfl
    | _ => exact absurd same (by simp [Expr.same])
  | .call c, e', same => by
    cases e' with
    | call d =>
      rw [Expr.same] at same
      exact Call.openings_same same
    | _ => exact absurd same (by simp [Expr.same])
  | .unary span o a, e', same => by
    cases e' with
    | unary span' p b =>
      rw [Expr.same, Bool.and_eq_true] at same
      have inside := openingsAt_congr same.2 (Expr.openings_same same.2) UnaryOperator.precedence
      rw [← openingsAt_unary span o a, ← openingsAt_unary span' p b] at inside
      exact openings_of_tight le_rfl le_rfl inside
    | _ => exact absurd same (by simp [Expr.same])
  | .binary span o a b, e', same => by
    cases e' with
    | binary span' p c d =>
      rw [Expr.same, Bool.and_eq_true, Bool.and_eq_true, decide_eq_true_eq] at same
      obtain ⟨⟨rfl, left⟩, right⟩ := same
      have ofLeft := openingsAt_congr left (Expr.openings_same left) o.precedence
      have ofRight := openingsAt_congr right (Expr.openings_same right) (o.precedence + 1)
      have both := congrArg₂ (· + ·) ofLeft ofRight
      rw [← openingsAt_binary span o a b, ← openingsAt_binary span' o c d] at both
      exact openings_of_tight le_rfl le_rfl both
    | _ => exact absurd same (by simp [Expr.same])
termination_by structural e => e

theorem Call.openings_same : ∀ {c d : Call}, c.same d = true →
    openings c.marks = openings d.marks
  | .mk _ _ as ks, .mk _ _ bs ls, same => by
    rw [Call.same, Bool.and_eq_true, Bool.and_eq_true] at same
    rw [openings_call, openings_call, List.map_append, List.map_append, List.sum_append,
      List.sum_append, exprs_openings_same same.1.2, keywords_openings_same same.2]
termination_by structural c => c

theorem exprs_openings_same : ∀ {as bs : List Expr}, sameExprs as bs = true →
    ((exprMarks as).map openings).sum = ((exprMarks bs).map openings).sum
  | [], [], _ => rfl
  | [], _ :: _, same => absurd same (by simp [sameExprs])
  | _ :: _, [], same => absurd same (by simp [sameExprs])
  | a :: as, b :: bs, same => by
    rw [sameExprs, Bool.and_eq_true] at same
    rw [exprMarks, exprMarks, List.map_cons, List.map_cons, List.sum_cons, List.sum_cons,
      Expr.openings_same same.1, exprs_openings_same same.2]
termination_by structural as => as

theorem keywords_openings_same : ∀ {ks ls : List KeywordArgument}, sameKeywords ks ls = true →
    ((keywordMarks ks).map openings).sum = ((keywordMarks ls).map openings).sum
  | [], [], _ => rfl
  | [], .mk .. :: _, same => absurd same (by simp [sameKeywords])
  | .mk .. :: _, [], same => absurd same (by simp [sameKeywords])
  | .mk _ _ a :: ks, .mk _ _ b :: ls, same => by
    rw [sameKeywords, Bool.and_eq_true, Bool.and_eq_true] at same
    rw [openings_named, openings_named, keywords_openings_same same.2]
    exact congrArg (· + _) (Expr.openings_same same.1.2)
termination_by structural ks => ks

end

end InstallScript
