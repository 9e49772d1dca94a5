import InstallScript.Proofs.Syntax.Sound
import InstallScript.Proofs.Syntax.Placement

/-!
What the span of an expression covers. Parentheses around an expression leave no trace in its tree,
and none in the spans of the operators that it is an operand of: such a span begins and ends within
the parentheses of the operands. So from the first token of a span to its last one parentheses pair
up only if nothing is left out (`Phrase.Expression.core`), and what they cover is the expression.
-/

namespace InstallScript

/-! ## Pairs of parentheses -/

/-- How many parentheses are open behind one more token, if not too many are closed. -/
def TokenKind.openBehind? (depth : Nat) : TokenKind → Option Nat
  | .leftParen => some (depth + 1)
  | .rightParen => if depth = 0 then none else some (depth - 1)
  | _ => some depth

/-- How many parentheses are open behind further tokens, if not too many are closed. -/
def openBehind? (depth : Nat) (kinds : List TokenKind) : Option Nat :=
  kinds.foldlM TokenKind.openBehind? depth

/-- The parentheses of some tokens pair up. -/
def Paired (kinds : List TokenKind) : Prop := openBehind? 0 kinds = some 0

instance (kinds : List TokenKind) : Decidable (Paired kinds) :=
  inferInstanceAs (Decidable (openBehind? 0 kinds = some 0))

section

variable {depth : Nat} {kind : TokenKind} {kinds kinds' : List TokenKind}

theorem openBehind?_cons : openBehind? depth (kind :: kinds) =
    (kind.openBehind? depth).bind (openBehind? · kinds) := List.foldlM_cons

/-- Other tokens change nothing. -/
theorem openBehind?_plain (notOpening : kind ≠ .leftParen) (notClosing : kind ≠ .rightParen) :
    openBehind? depth (kind :: kinds) = openBehind? depth kinds := by
  rw [openBehind?_cons, TokenKind.openBehind?, Option.bind_some]
  · exact notOpening
  · exact notClosing

theorem openBehind?_append : openBehind? depth (kinds ++ kinds') =
    (openBehind? depth kinds).bind (openBehind? · kinds') := List.foldlM_append

theorem TokenKind.openBehind?_add {depth' : Nat} (reached : kind.openBehind? depth = some depth')
    (more : Nat) : kind.openBehind? (depth + more) = some (depth' + more) := by
  unfold openBehind? at reached ⊢
  split at reached
  · cases reached
    exact congrArg some (by omega)
  · split at reached
    · cases reached
    · cases reached
      rw [if_neg (by omega)]
      exact congrArg some (by omega)
  · cases reached
    rfl

/-- Parentheses that are open in front stay open. -/
theorem openBehind?_add {depth' : Nat} (reached : openBehind? depth kinds = some depth')
    (more : Nat) : openBehind? (depth + more) kinds = some (depth' + more) := by
  induction kinds generalizing depth with
  | nil =>
    cases reached
    rfl
  | cons kind kinds ih =>
    rw [openBehind?_cons, Option.bind_eq_some_iff] at reached
    obtain ⟨between, first, others⟩ := reached
    rw [openBehind?_cons, TokenKind.openBehind?_add first, Option.bind_some, ih others]

/-- Tokens that all open a parenthesis. -/
theorem openBehind?_opening (opening : ∀ kind ∈ kinds, kind = .leftParen) :
    openBehind? depth kinds = some (depth + kinds.length) := by
  induction kinds generalizing depth with
  | nil => rfl
  | cons kind kinds ih =>
    obtain ⟨rfl, others⟩ := List.forall_mem_cons.1 opening
    rw [openBehind?_cons, TokenKind.openBehind?, Option.bind_some, ih others, List.length_cons]
    exact congrArg some (by omega)

/-- Tokens that all close a parenthesis, until none is open. -/
theorem length_of_closing (closing : ∀ kind ∈ kinds, kind = .rightParen)
    (reached : openBehind? depth kinds = some 0) : kinds.length = depth := by
  induction kinds generalizing depth with
  | nil =>
    cases reached
    rfl
  | cons kind kinds ih =>
    obtain ⟨rfl, others⟩ := List.forall_mem_cons.1 closing
    rw [openBehind?_cons, TokenKind.openBehind?] at reached
    split at reached
    · cases reached
    · have := ih others reached
      rw [List.length_cons]
      omega

end

/-- Items behind which as many parentheses are open as in front of them. -/
def Balanced (items : List Item) : Prop :=
  ∀ depth, openBehind? depth (items.map Item.kind) = some depth

namespace Balanced

variable {item opening closing : Item} {ts us : List Item}

theorem paired (balanced : Balanced ts) : Paired (ts.map Item.kind) := balanced 0

theorem nil : Balanced [] := fun _ => rfl

theorem append (left : Balanced ts) (right : Balanced us) : Balanced (ts ++ us) := by
  intro depth
  rw [List.map_append, openBehind?_append, left, Option.bind_some, right]

theorem cons {kind : TokenKind} (itemKind : item.kind = kind) (others : Balanced ts)
    (notOpening : kind ≠ .leftParen := by decide) (notClosing : kind ≠ .rightParen := by decide) :
    Balanced (item :: ts) := by
  intro depth
  rw [List.map_cons, itemKind, openBehind?_plain notOpening notClosing]
  exact others depth

theorem enclosed (openingKind : opening.kind = .leftParen)
    (closingKind : closing.kind = .rightParen) (inner : Balanced ts) :
    Balanced (opening :: (ts ++ [closing])) := by
  intro depth
  rw [List.map_cons, List.map_append, List.map_singleton, openingKind, closingKind,
    openBehind?_cons, TokenKind.openBehind?, Option.bind_some, openBehind?_append, inner]
  rfl

/-- A balanced stretch does not end with closing parentheses if none is open in front of them. -/
theorem no_closing (balanced : Balanced (ts ++ us))
    (closing : ∀ item ∈ us, item.kind = .rightParen)
    (reached : openBehind? 0 (ts.map Item.kind) = some 0) : us = [] := by
  have whole := balanced 0
  rw [List.map_append, openBehind?_append, reached] at whole
  have counted := length_of_closing (List.forall_mem_map.2 closing) whole
  rw [List.length_map] at counted
  exact List.length_eq_zero_iff.1 counted

/-- A balanced stretch does not begin with opening parentheses if what is behind them closes no
others than its own. -/
theorem no_opening (balanced : Balanced (ts ++ us))
    (opening : ∀ item ∈ ts, item.kind = .leftParen) {depth : Nat}
    (reached : openBehind? 0 (us.map Item.kind) = some depth) : ts = [] ∧ depth = 0 := by
  have whole := balanced 0
  rw [List.map_append, openBehind?_append, openBehind?_opening (List.forall_mem_map.2 opening),
    Option.bind_some, openBehind?_add reached, Option.some.injEq, List.length_map] at whole
  exact ⟨List.length_eq_zero_iff.1 (by omega), by omega⟩

end Balanced

theorem BinaryOperator.kind_plain (o : BinaryOperator) :
    o.kind ≠ .leftParen ∧ o.kind ≠ .rightParen := by
  cases o <;> decide

theorem UnaryOperator.kind_plain (o : UnaryOperator) :
    o.kind ≠ .leftParen ∧ o.kind ≠ .rightParen := by
  cases o <;> decide

namespace Phrase

variable {g : Grammar}

mutual

theorem Expression.balanced {level : Nat} {ts : List Item} {e : Expr} :
    Expression g level ts e → Balanced ts
  | @Expression.binary _ _ o _ _ _ _ _ _ signKind left right =>
    left.balanced.append (.cons signKind right.balanced o.kind_plain.1 o.kind_plain.2)
  | .tighter _ inner => inner.balanced
  | .operand inner => inner.balanced

theorem Operand.balanced {ts : List Item} {e : Expr} : Operand g ts e → Balanced ts
  | @Operand.unary _ o _ _ _ signKind inner =>
    .cons signKind inner.balanced o.kind_plain.1 o.kind_plain.2
  | .literal kind => by
    have plain : ∀ k ∈ literalKinds, k ≠ .leftParen ∧ k ≠ .rightParen := by decide
    exact .cons rfl .nil (plain _ kind).1 (plain _ kind).2
  | .variable kind => .cons kind .nil
  | .call inner => inner.balanced
  | .parentheses openingKind closingKind inner => .enclosed openingKind closingKind inner.balanced

theorem FunctionCall.balanced {ts : List Item} {c : Call} : FunctionCall g ts c → Balanced ts
  | .bare nameKind openingKind closingKind =>
    .cons nameKind (.enclosed openingKind closingKind .nil)
  | .applied nameKind openingKind closingKind inner =>
    .cons nameKind (.enclosed openingKind closingKind inner.balanced)

theorem Arguments.balanced {ts : List Item} {es : List Expr} {ks : List KeywordArgument} :
    Arguments g ts es ks → Balanced ts
  | .lastPositional argument => argument.balanced
  | .lastNamed argument => argument.balanced
  | .positional commaKind argument others =>
    argument.balanced.append (.cons commaKind others.balanced)
  | .named commaKind argument others =>
    argument.balanced.append (.cons commaKind others.balanced)

theorem Named.balanced {ts : List Item} {k : KeywordArgument} : Named g ts k → Balanced ts
  | .mk _ nameKind signKind value => .cons nameKind (.cons signKind value.balanced)

end

/-! ## What spans cover -/

/-- A stretch of items that the span of an expression covers, in a stretch that is the expression:
around it are parentheses, and if its own ones pair up it is the expression, too. -/
structure Core (g : Grammar) (e : Expr) (core ts : List Item) : Prop where
  around : ∃ opens closes, ts = opens ++ (core ++ closes) ∧
    (∀ item ∈ opens, item.kind = .leftParen) ∧ ∀ item ∈ closes, item.kind = .rightParen
  start : ∃ first, core.head? = some first ∧ first.token.span.start = e.span.start
  stop : ∃ last, core.getLast? = some last ∧ last.token.span.stop = e.span.stop
  phrase : Paired (core.map Item.kind) → Expression g 1 core e

/-- An operand without parentheses around it is covered. -/
theorem Core.whole {ts : List Item} {e : Expr} (operand : Operand g ts e)
    (start : ∃ first, ts.head? = some first ∧ first.token.span.start = e.span.start)
    (stop : ∃ last, ts.getLast? = some last ∧ last.token.span.stop = e.span.stop) :
    Core g e ts ts where
  around := ⟨[], [], (List.append_nil ts).symm, List.forall_mem_nil _, List.forall_mem_nil _⟩
  start := start
  stop := stop
  phrase _ := (Expression.operand operand).lower (Nat.le_refl _) UnaryOperator.one_le_precedence

theorem FunctionCall.core {ts : List Item} {c : Call} (phrase : FunctionCall g ts c) :
    Core g (.call c) ts ts := by
  cases phrase with
  | bare nameKind openingKind closingKind =>
    exact .whole (.call (.bare nameKind openingKind closingKind)) ⟨_, rfl, rfl⟩ ⟨_, rfl, rfl⟩
  | @applied name opening closing ts _ _ nameKind openingKind closingKind inner =>
    refine .whole (.call (.applied nameKind openingKind closingKind inner)) ⟨_, rfl, rfl⟩
      ⟨closing, ?_, ?_⟩
    · rw [← List.cons_append, ← List.cons_append, List.getLast?_concat]
    · exact (through_stop name.token (opening :: ts) closing).symm

mutual

/-- The span of an expression covers a stretch of its tokens. -/
theorem Expression.core {level : Nat} {ts : List Item} {e : Expr} :
    Expression g level ts e → ∃ core, Core g e core ts
  | @Expression.binary _ _ o sign ls rs a b tightness signKind left right => by
    obtain ⟨core, ⟨opens, closes, rfl, opening, closing⟩, ⟨first, head, start⟩, -, -⟩ := left.core
    obtain ⟨core', ⟨opens', closes', rfl, opening', closing'⟩, -, ⟨last, tail, stop⟩, -⟩ :=
      right.core
    refine ⟨(core ++ closes) ++ sign :: (opens' ++ core'), ⟨opens, closes', ?_, opening, closing'⟩,
      ⟨first, ?_, start⟩, ⟨last, ?_, stop⟩, fun paired => ?_⟩
    · simp only [List.append_assoc, List.cons_append]
    · rw [List.head?_append, List.head?_append, head, Option.some_or, Option.some_or]
    · rw [List.getLast?_append_cons, List.getLast?_cons, List.getLast?_append, tail, Option.some_or,
        Option.getD_some]
    · rw [Paired, List.map_append, openBehind?_append, Option.bind_eq_some_iff] at paired
      obtain ⟨depth, first, others⟩ := paired
      obtain ⟨rfl, rfl⟩ := left.balanced.no_opening opening first
      rw [List.map_cons, signKind, openBehind?_plain o.kind_plain.1 o.kind_plain.2] at others
      have balanced := right.balanced
      rw [← List.append_assoc] at balanced
      obtain rfl := balanced.no_closing closing' others
      have whole := Expression.binary tightness signKind left right
      rw [List.nil_append, List.append_nil] at whole
      exact whole.lower (by have := o.precedence_lt; omega) (by have := o.one_le_precedence; omega)
  | .tighter _ inner => inner.core
  | .operand inner => inner.core

theorem Operand.core {ts : List Item} {e : Expr} : Operand g ts e → ∃ core, Core g e core ts
  | @Operand.unary _ o sign _ _ signKind inner => by
    obtain ⟨core, ⟨opens, closes, rfl, opening, closing⟩, -, ⟨last, tail, stop⟩, -⟩ := inner.core
    refine ⟨sign :: (opens ++ core), ⟨[], closes, ?_, List.forall_mem_nil _, closing⟩,
      ⟨sign, rfl, rfl⟩, ⟨last, ?_, stop⟩, fun paired => ?_⟩
    · simp only [List.append_assoc, List.cons_append, List.nil_append]
    · rw [List.getLast?_cons, List.getLast?_append, tail, Option.some_or, Option.getD_some]
    · rw [Paired, List.map_cons, signKind,
        openBehind?_plain o.kind_plain.1 o.kind_plain.2] at paired
      have balanced := inner.balanced
      rw [← List.append_assoc] at balanced
      obtain rfl := balanced.no_closing closing paired
      rw [List.append_nil] at inner
      exact (Expression.operand (.unary signKind inner)).lower (Nat.le_refl _)
        UnaryOperator.one_le_precedence
  | .literal kind => ⟨_, .whole (.literal kind) ⟨_, rfl, rfl⟩ ⟨_, rfl, rfl⟩⟩
  | .variable kind => ⟨_, .whole (.variable kind) ⟨_, rfl, rfl⟩ ⟨_, rfl, rfl⟩⟩
  | .call inner => ⟨_, inner.core⟩
  | @Operand.parentheses _ opening closing _ _ openingKind closingKind inner => by
    obtain ⟨core, ⟨opens, closes, rfl, opens', closes'⟩, start, stop, phrase⟩ := inner.core
    refine ⟨core, ⟨opening :: opens, closes ++ [closing], ?_, ?_, ?_⟩, start, stop, phrase⟩
    · simp only [List.append_assoc, List.cons_append]
    · exact List.forall_mem_cons.2 ⟨openingKind, opens'⟩
    · exact List.forall_mem_append.2 ⟨closes', List.forall_mem_singleton.2 closingKind⟩

end

end Phrase

end InstallScript
