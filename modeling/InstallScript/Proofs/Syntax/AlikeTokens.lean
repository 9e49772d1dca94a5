import Mathlib.Data.List.Forall2
import InstallScript.Proofs.Syntax.Reading

/-!
The parser does not look at places. From tokens that are equal but for their places it makes trees
that are equal but for their stretches, or stops for the same reason (`Block.ofStream_alike`).

`Agrees r p q` compares two parsers step by step: from places with such tokens ahead, both stop for
the same reason, or their values are related by `r` and such tokens are ahead again.
-/

namespace InstallScript

open InstallScript.Parser

/-! ## Tokens without places -/

/-- Tokens that are equal but for their places. A literal is equal to itself: no number literal is
too large to be compared. -/
structure Token.Alike (t t' : Token) : Prop where
  kind : t.kind = t'.kind
  value : t.value = t'.value
  lexeme : t.lexeme = t'.lexeme
  comparable : (literalOf t).same (literalOf t) = true

namespace Token.Alike

variable {t t' : Token}

theorem name (alike : t.Alike t') : t.name = t'.name := by
  rw [Token.name, Token.name, alike.value, alike.lexeme]

theorem describe (alike : t.Alike t') : t.describe = t'.describe := by
  rw [Token.describe, Token.describe, alike.kind, alike.lexeme]

theorem literal (alike : t.Alike t') : (literalOf t).same (literalOf t') = true := by
  have equal : literalOf t = literalOf t' := by
    rw [literalOf, literalOf, alike.value, alike.lexeme]
  exact equal ▸ alike.comparable

theorem is_iff (alike : t.Alike t') (kind : TokenKind) : t.kind = kind ↔ t'.kind = kind := by
  rw [alike.kind]

end Token.Alike

/-- Items whose tokens and comments are equal but for their places. -/
structure Item.Alike (item item' : Item) : Prop where
  comments : List.Forall₂ Token.Alike item.comments item'.comments
  token : item.token.Alike item'.token

/-- Places of the parser with tokens ahead that are equal but for their places. -/
def Cursor.Alike (c c' : Cursor) : Prop := List.Forall₂ Item.Alike c.rest c'.rest

/-- Why the parser stops, without the place. -/
def Halt.unplaced : Halt → Halt
  | .fault f _ => .fault f default
  | .noToken => .noToken
  | .tooDeep => .tooDeep

theorem groupComments_alike {tokens tokens' : List Token}
    (alike : List.Forall₂ Token.Alike tokens tokens') : ∀ {comments comments' : List Token},
      List.Forall₂ Token.Alike comments comments' →
        List.Forall₂ Item.Alike (groupComments comments tokens)
          (groupComments comments' tokens') := by
  induction alike with
  | nil => exact fun _ => .nil
  | @cons t t' tokens tokens' first _ ih =>
    intro comments comments' before
    rw [groupComments, groupComments]
    by_cases isComment : t.kind = .comment
    · rw [if_pos isComment, if_pos ((first.is_iff _).1 isComment)]
      exact ih (.cons first before)
    · rw [if_neg isComment, if_neg (mt (first.is_iff _).2 isComment)]
      exact .cons ⟨List.rel_reverse before, first⟩ (ih .nil)

/-! ## Parsers side by side -/

/-- Values that are related at places that are alike, or the same reason to stop. -/
inductive OutcomesAlike {α : Type} (r : α → α → Prop) :
    Except Halt (α × Cursor) → Except Halt (α × Cursor) → Prop
  | ok {a b : α} {c c' : Cursor} (related : r a b) (ahead : c.Alike c') :
    OutcomesAlike r (.ok (a, c)) (.ok (b, c'))
  | error {reason reason' : Halt} (same : reason.unplaced = reason'.unplaced) :
    OutcomesAlike r (.error reason) (.error reason')

/-- Two parsers do the same with tokens that are equal but for their places. -/
def Agrees {α : Type} (r : α → α → Prop) (p q : Parser α) : Prop :=
  ∀ c c', c.Alike c' → OutcomesAlike r (p c) (q c')

namespace Agrees

variable {α β : Type} {r : α → α → Prop} {s : β → β → Prop}

theorem pure {a b : α} (related : r a b) : Agrees r (Pure.pure a) (Pure.pure b) :=
  fun _ _ alike => .ok related alike

theorem halt {reason reason' : Halt} (same : reason.unplaced = reason'.unplaced) :
    Agrees r (Parser.halt reason) (Parser.halt reason') :=
  fun _ _ _ => .error same

theorem fault {f f' : Fault} {span span' : Span} (same : f = f') :
    Agrees r (Parser.halt (.fault f span)) (Parser.halt (.fault f' span')) :=
  .halt (by rw [same]; rfl)

theorem bind {p q : Parser α} {k l : α → Parser β} (first : Agrees r p q)
    (second : ∀ a b, r a b → Agrees s (k a) (l b)) : Agrees s (p >>= k) (q >>= l) := by
  intro c c' alike
  rw [bind_apply, bind_apply]
  have both := first c c' alike
  generalize p c = left, q c' = right at both
  cases both with
  | ok related ahead => exact second _ _ related _ _ ahead
  | error same => exact .error same

theorem ite {P Q : Prop} [Decidable P] [Decidable Q] {p p' q q' : Parser α} (iff : P ↔ Q)
    (left : Agrees r p q) (right : Agrees r p' q') :
    Agrees r (if P then p else p') (if Q then q else q') := by
  by_cases holds : P
  · rw [if_pos holds, if_pos (iff.1 holds)]
    exact left
  · rw [if_neg holds, if_neg (mt iff.2 holds)]
    exact right

end Agrees

section

variable {α : Type} {r : α → α → Prop}

theorem agrees_peek : Agrees Token.Alike peek peek := by
  rintro ⟨rest, previous⟩ ⟨rest', previous'⟩ alike
  cases alike with
  | nil => exact .error rfl
  | cons first others => exact .ok first.token (.cons first others)

theorem agrees_peekSecond : Agrees Token.Alike peekSecond peekSecond := by
  rintro ⟨rest, previous⟩ ⟨rest', previous'⟩ alike
  cases alike with
  | nil => exact .error rfl
  | cons first others =>
    cases others with
    | nil => exact .error rfl
    | cons second others => exact .ok second.token (.cons first (.cons second others))

theorem agrees_peekComments : Agrees (List.Forall₂ Token.Alike) peekComments peekComments := by
  rintro ⟨rest, previous⟩ ⟨rest', previous'⟩ alike
  cases alike with
  | nil => exact .error rfl
  | cons first others => exact .ok first.comments (.cons first others)

theorem agrees_advance : Agrees Token.Alike advance advance := by
  rintro ⟨rest, previous⟩ ⟨rest', previous'⟩ alike
  cases alike with
  | nil => exact .error rfl
  | @cons item item' rest rest' first others =>
    refine .ok first.token ?_
    unfold Cursor.Alike
    dsimp only
    by_cases isEnd : item.token.kind = .endOfInput
    · rw [if_pos isEnd, if_pos ((first.token.is_iff _).1 isEnd)]
      exact .cons first others
    · rw [if_neg isEnd, if_neg (mt (first.token.is_iff _).2 isEnd)]
      exact others

theorem agrees_spanFrom (start start' : Token) :
    Agrees (fun _ _ => True) (spanFrom start) (spanFrom start') :=
  fun _ _ alike => .ok trivial alike

theorem agrees_unexpected (expected : String) :
    Agrees r (unexpected expected) (unexpected expected) := by
  refine agrees_peek.bind fun t t' alike => .ite (alike.is_iff _) (.fault rfl) (.fault ?_)
  rw [alike.describe]

theorem agrees_expect (kind : TokenKind) (expected : String) :
    Agrees Token.Alike (expect kind expected) (expect kind expected) :=
  agrees_peek.bind fun _ _ alike =>
    .ite (alike.is_iff kind) agrees_advance (agrees_unexpected expected)

theorem agrees_skipSemicolon : Agrees (fun _ _ => True) skipSemicolon skipSemicolon :=
  agrees_peek.bind fun _ _ alike =>
    .ite (alike.is_iff _) (agrees_advance.bind fun _ _ _ => .pure trivial) (.pure trivial)

theorem agrees_closing (start start' : Token) (kind : TokenKind) (expected : String) :
    Agrees (fun _ _ => True) (closing start kind expected) (closing start' kind expected) :=
  (agrees_expect kind expected).bind fun _ _ _ => agrees_spanFrom start start'

end

/-! ## Trees -/

/-- A comparison that goes through two lists side by side. -/
structure ItemByItem {α : Type} (same : List α → List α → Bool) : Prop where
  nil : same [] [] = true
  more : ∀ a as, same (a :: as) [] = false
  fewer : ∀ b bs, same [] (b :: bs) = false
  cons : ∃ first : α → α → Bool, ∀ a as b bs, same (a :: as) (b :: bs) = (first a b && same as bs)

namespace ItemByItem

variable {α : Type} {same : List α → List α → Bool} {as bs cs ds : List α}

theorem append (items : ItemByItem same) (left : same as bs = true) (right : same cs ds = true) :
    same (as ++ cs) (bs ++ ds) = true := by
  obtain ⟨first, cons⟩ := items.cons
  induction as generalizing bs with
  | nil =>
    cases bs with
    | nil => exact right
    | cons b bs => exact absurd left (by simp [items.fewer])
  | cons a as ih =>
    cases bs with
    | nil => exact absurd left (by simp [items.more])
    | cons b bs =>
      rw [cons, Bool.and_eq_true] at left
      rw [List.cons_append, List.cons_append, cons, left.1, ih left.2, Bool.and_true]

theorem isEmpty (items : ItemByItem same) (equal : same as bs = true) :
    as.isEmpty = bs.isEmpty := by
  cases as with
  | nil =>
    cases bs with
    | nil => rfl
    | cons b bs => exact absurd equal (by simp [items.fewer])
  | cons a as =>
    cases bs with
    | nil => exact absurd equal (by simp [items.more])
    | cons b bs => rfl

end ItemByItem

theorem sameExprs_items : ItemByItem sameExprs :=
  ⟨by rw [sameExprs], fun a as => by simp [sameExprs], fun b bs => by simp [sameExprs],
    ⟨Expr.same, fun a as b bs => by rw [sameExprs]⟩⟩

theorem sameKeywords_items : ItemByItem sameKeywords := by
  refine ⟨by rw [sameKeywords], fun a as => by simp [sameKeywords],
    fun b bs => by simp [sameKeywords],
    ⟨fun a b => decide (a.name = b.name) && a.value.same b.value, ?_⟩⟩
  rintro ⟨_, name, value⟩ as ⟨_, name', value'⟩ bs
  rw [sameKeywords]
  rfl

theorem sameStmts_items : ItemByItem sameStmts :=
  ⟨by rw [sameStmts], fun a as => by simp [sameStmts], fun b bs => by simp [sameStmts],
    ⟨Stmt.same, fun a as b bs => by rw [sameStmts]⟩⟩

/-- Comments that are equal but for their places become equal statements. -/
theorem sameStmts_comments {comments comments' : List Token}
    (alike : List.Forall₂ Token.Alike comments comments') :
    sameStmts (comments.map commentStmt) (comments'.map commentStmt) = true := by
  induction alike with
  | nil => exact sameStmts_items.nil
  | cons first _ ih =>
    rw [List.map_cons, List.map_cons, sameStmts, ih, commentStmt, commentStmt, Stmt.same,
      first.name, decide_eq_true rfl]
    rfl

theorem sameBranches_cons {b b' : Branch} {bs bs' : List Branch}
    (first : sameBranches [b] [b'] = true) (others : sameBranches bs bs' = true) :
    sameBranches (b :: bs) (b' :: bs') = true := by
  obtain ⟨span, condition, body⟩ := b
  obtain ⟨span', condition', body'⟩ := b'
  rw [sameBranches, Bool.and_eq_true] at first
  rw [sameBranches, first.1, others]
  rfl

/-- Arguments that are equal but for their stretches. -/
def argumentsSame (given given' : List Expr × List KeywordArgument) : Prop :=
  sameExprs given.1 given'.1 = true ∧ sameKeywords given.2 given'.2 = true

/-! ## Expressions -/

section

variable (g : Grammar)

mutual

theorem expression_agrees : ∀ n least,
    Agrees (fun e e' => e.same e' = true) (expression g n least) (expression g n least)
  | 0, _ => by
    rw [expression]
    exact .halt rfl
  | n + 1, least => by
    rw [expression]
    exact (operand_agrees n).bind fun left left' same => operators_agrees n least left left' same

theorem operators_agrees : ∀ n least (left left' : Expr), left.same left' = true →
    Agrees (fun e e' => e.same e' = true) (operators g n least left) (operators g n least left')
  | 0, _, _, _, _ => by
    rw [operators, operators]
    exact .halt rfl
  | n + 1, least, left, left', same => by
    rw [operators, operators]
    refine agrees_peek.bind fun t t' alike => ?_
    rw [alike.kind]
    split
    · exact .pure same
    · refine .ite Iff.rfl (.pure same) (agrees_advance.bind fun _ _ _ => ?_)
      refine (expression_agrees n _).bind fun right right' same' => operators_agrees n least _ _ ?_
      rw [Expr.same, same, same', decide_eq_true rfl]
      rfl

theorem operand_agrees : ∀ n,
    Agrees (fun e e' => e.same e' = true) (operand g n) (operand g n)
  | 0 => by
    rw [operand]
    exact .halt rfl
  | n + 1 => by
    rw [operand]
    refine agrees_peek.bind fun t t' alike => ?_
    rw [alike.kind]
    split
    · exact primary_agrees n
    · refine agrees_advance.bind fun _ _ _ => (operand_agrees n).bind fun inner inner' same => ?_
      refine .pure ?_
      rw [Expr.same, same, decide_eq_true rfl]
      rfl

theorem primary_agrees : ∀ n,
    Agrees (fun e e' => e.same e' = true) (primary g n) (primary g n)
  | 0 => by
    rw [primary]
    exact .halt rfl
  | n + 1 => by
    rw [primary]
    refine agrees_peek.bind fun t t' alike => ?_
    have literal : Agrees (fun e e' => e.same e' = true)
        (advance >>= fun _ => Pure.pure (Expr.literal t.span (literalOf t)))
        (advance >>= fun _ => Pure.pure (Expr.literal t'.span (literalOf t'))) := by
      refine agrees_advance.bind fun _ _ _ => .pure ?_
      rw [Expr.same]
      exact alike.literal
    rw [alike.kind]
    split
    · exact literal
    · exact literal
    · exact literal
    · refine agrees_peekSecond.bind fun _ _ second => .ite (second.is_iff _) ?_ ?_
      · refine (call_agrees n).bind fun c c' same => .pure ?_
        rw [Expr.same]
        exact same
      · refine agrees_advance.bind fun _ _ _ => .pure ?_
        rw [Expr.same, alike.name, decide_eq_true rfl]
    · refine agrees_advance.bind fun _ _ _ => (expression_agrees n 1).bind fun _ _ same => ?_
      exact (agrees_expect _ _).bind fun _ _ _ => .pure same
    · exact .fault rfl
    · exact .fault (by rw [alike.describe])

theorem call_agrees : ∀ n, Agrees (fun c c' => c.same c' = true) (call g n) (call g n)
  | 0 => by
    rw [call]
    exact .halt rfl
  | n + 1 => by
    rw [call]
    refine (agrees_expect _ _).bind fun name name' alike => (agrees_expect _ _).bind fun _ _ _ => ?_
    have closes (given given' : List Expr × List KeywordArgument)
        (same : argumentsSame given given') : Agrees (fun c c' => c.same c' = true)
        (expect .rightParen "',' or ')'" >>= fun _ => spanFrom name >>= fun span =>
          Pure.pure (Call.mk span name.name given.1 given.2))
        (expect .rightParen "',' or ')'" >>= fun _ => spanFrom name' >>= fun span =>
          Pure.pure (Call.mk span name'.name given'.1 given'.2)) := by
      refine (agrees_expect _ _).bind fun _ _ _ => (agrees_spanFrom name name').bind fun _ _ _ => ?_
      refine .pure ?_
      rw [Call.same, alike.name, same.1, same.2, decide_eq_true rfl]
      rfl
    refine agrees_peek.bind fun _ _ next => .ite (next.is_iff _) ?_ ?_
    · exact closes ([], []) ([], []) ⟨sameExprs_items.nil, sameKeywords_items.nil⟩
    · have none : argumentsSame ([], []) ([], []) := ⟨sameExprs_items.nil, sameKeywords_items.nil⟩
      exact (arguments_agrees n name name' alike ([], []) ([], []) none).bind closes

theorem arguments_agrees : ∀ n (function function' : Token), function.Alike function' →
    ∀ given given', argumentsSame given given' → Agrees argumentsSame
      (arguments g n function given.1 given.2) (arguments g n function' given'.1 given'.2)
  | 0, _, _, _, _, _, _ => by
    rw [arguments, arguments]
    exact .halt rfl
  | n + 1, function, function', alike, given, given', same => by
    rw [arguments, arguments]
    refine (argument_agrees n function function' alike given given' same).bind
      fun more more' same' => ?_
    refine agrees_peek.bind fun _ _ next => .ite (next.is_iff _) ?_ (.pure same')
    exact agrees_advance.bind fun _ _ _ => arguments_agrees n function function' alike _ _ same'

theorem argument_agrees : ∀ n (function function' : Token), function.Alike function' →
    ∀ given given', argumentsSame given given' → Agrees argumentsSame
      (argument g n function given.1 given.2) (argument g n function' given'.1 given'.2)
  | 0, _, _, _, _, _, _ => by
    rw [argument, argument]
    exact .halt rfl
  | n + 1, function, function', alike, given, given', same => by
    rw [argument, argument]
    have positional : Agrees argumentsSame
        (expression g n 1 >>= fun value => Pure.pure (given.1 ++ [value], given.2))
        (expression g n 1 >>= fun value => Pure.pure (given'.1 ++ [value], given'.2)) := by
      refine (expression_agrees n 1).bind fun value value' equal => .pure ⟨?_, same.2⟩
      exact sameExprs_items.append same.1 (by rw [sameExprs, equal, sameExprs]; rfl)
    refine agrees_peek.bind fun start start' first => .ite (first.is_iff _) ?_ ?_
    · refine agrees_peekSecond.bind fun second second' next => ?_
      refine .ite (by rw [next.kind]) (.fault rfl) (.ite (by rw [next.kind]) ?_ ?_)
      · refine agrees_advance.bind fun _ _ _ => agrees_advance.bind fun _ _ _ => ?_
        refine (expression_agrees n 1).bind fun value value' equal => ?_
        refine (agrees_spanFrom start start').bind fun _ _ _ => .pure ⟨same.1, ?_⟩
        refine sameKeywords_items.append same.2 ?_
        rw [sameKeywords, equal, first.name, decide_eq_true rfl, sameKeywords]
        rfl
      · exact .ite (by rw [sameKeywords_items.isEmpty same.2]) positional (.fault (by rw [alike.name]))
    · dsimp only [Bool.false_and]
      exact .ite (by rw [sameKeywords_items.isEmpty same.2]) positional (.fault (by rw [alike.name]))

end

/-! ## Statements -/

theorem assignment_agrees (n : Nat) (start start' : Token) (mode : AssignMode) :
    Agrees (fun s s' => s.same s' = true) (assignment g n start mode)
      (assignment g n start' mode) := by
  refine (agrees_expect _ _).bind fun name name' alike => (agrees_expect _ _).bind fun _ _ _ => ?_
  refine (expression_agrees g n 1).bind fun value value' same => ?_
  refine (agrees_spanFrom start start').bind fun _ _ _ => .pure ?_
  rw [Stmt.same, same, alike.name, decide_eq_true rfl, decide_eq_true rfl]
  rfl

theorem loopStep_agrees (n : Nat) :
    Agrees (Option.Rel fun e e' => Expr.same e e' = true) (loopStep g n) (loopStep g n) := by
  refine agrees_peek.bind fun _ _ next => .ite (next.is_iff _) ?_ (.pure .none)
  exact agrees_advance.bind fun _ _ _ =>
    (expression_agrees g n 1).bind fun _ _ same => .pure (.some same)

theorem Stmt.same_choice {span span' : Span} {bs bs' : List Branch} {last last' : Option Block}
    (branches : sameBranches bs bs' = true)
    (otherwise : Option.Rel (fun b b' => Block.same b b' = true) last last') :
    (Stmt.choice span bs last).same (.choice span' bs' last') = true := by
  cases otherwise with
  | none => rw [Stmt.same, branches]
  | some same =>
    rw [Stmt.same, branches, same]
    rfl

theorem Stmt.same_forLoop {span span' : Span} {counter : String} {first first' last last' : Expr}
    {step step' : Option Expr} {body body' : Block} (start : first.same first' = true)
    (stop : last.same last' = true)
    (increment : Option.Rel (fun e e' => Expr.same e e' = true) step step')
    (inner : body.same body' = true) :
    (Stmt.forLoop span counter first last step body).same
      (.forLoop span' counter first' last' step' body') = true := by
  cases increment with
  | none =>
    rw [Stmt.same, start, stop, inner, decide_eq_true rfl]
    rfl
  | some same =>
    rw [Stmt.same, start, stop, same, inner, decide_eq_true rfl]
    rfl

theorem Block.same_statements {b b' : Block} (same : b.same b' = true) :
    sameStmts b.statements b'.statements = true := by
  obtain ⟨span, ss⟩ := b
  obtain ⟨span', ss'⟩ := b'
  rwa [Block.same] at same

mutual

theorem statements_agrees : ∀ n ends,
    Agrees (fun ss ss' => sameStmts ss ss' = true) (statements g n ends) (statements g n ends)
  | 0, _ => by
    rw [statements]
    exact .halt rfl
  | n + 1, ends => by
    rw [statements]
    refine agrees_peekComments.bind fun comments comments' before => ?_
    refine agrees_peek.bind fun t t' alike => .ite (by rw [alike.kind]) ?_
      (.ite (alike.is_iff _) (agrees_unexpected _) ?_)
    · exact .pure (sameStmts_comments before)
    · refine (statement_agrees n).bind fun first first' same => ?_
      refine agrees_skipSemicolon.bind fun _ _ _ => (statements_agrees n ends).bind
        fun rest rest' same' => .pure ?_
      exact sameStmts_items.append (sameStmts_comments before) (by rw [sameStmts, same, same']; rfl)

theorem block_agrees : ∀ n ends,
    Agrees (fun b b' => b.same b' = true) (block g n ends) (block g n ends)
  | 0, _ => by
    rw [block]
    exact .halt rfl
  | n + 1, ends => by
    rw [block]
    refine agrees_peek.bind fun start start' _ => (statements_agrees n ends).bind
      fun body body' same => (agrees_spanFrom start start').bind fun _ _ _ => .pure ?_
    rwa [Block.same]

theorem branch_agrees : ∀ n (start start' : Token),
    Agrees (fun b b' => sameBranches [b] [b'] = true) (branch g n start) (branch g n start')
  | 0, _, _ => by
    rw [branch, branch]
    exact .halt rfl
  | n + 1, start, start' => by
    rw [branch, branch]
    refine (expression_agrees g n 1).bind fun condition condition' same => ?_
    refine (agrees_expect _ _).bind fun _ _ _ => (block_agrees n _).bind fun body body' inner => ?_
    refine (agrees_spanFrom start start').bind fun _ _ _ => .pure ?_
    rw [sameBranches, same, inner, sameBranches]
    rfl

theorem furtherBranches_agrees : ∀ n,
    Agrees (fun bs bs' => sameBranches bs bs' = true) (furtherBranches g n) (furtherBranches g n)
  | 0 => by
    rw [furtherBranches]
    exact .halt rfl
  | n + 1 => by
    rw [furtherBranches]
    refine agrees_peek.bind fun _ _ next => .ite (next.is_iff _) ?_ (.pure (by rw [sameBranches]))
    refine agrees_advance.bind fun start start' _ => (branch_agrees n start start').bind
      fun first first' same => (furtherBranches_agrees n).bind fun rest rest' same' => .pure ?_
    exact sameBranches_cons same same'

theorem otherwise_agrees : ∀ n,
    Agrees (Option.Rel fun b b' => Block.same b b' = true) (otherwise g n) (otherwise g n)
  | 0 => by
    rw [otherwise]
    exact .halt rfl
  | n + 1 => by
    rw [otherwise]
    refine agrees_peek.bind fun _ _ next => .ite (next.is_iff _) ?_ (.pure .none)
    refine agrees_advance.bind fun start start' _ => (block_agrees n _).bind
      fun body body' same => (agrees_spanFrom start start').bind fun _ _ _ => .pure (.some ?_)
    rw [Block.same]
    exact Block.same_statements same

theorem statement_agrees : ∀ n,
    Agrees (fun s s' => s.same s' = true) (statement g n) (statement g n)
  | 0 => by
    rw [statement]
    exact .halt rfl
  | n + 1 => by
    rw [statement]
    refine agrees_peek.bind fun t t' alike => ?_
    rw [alike.kind]
    split
    · refine agrees_advance.bind fun _ _ _ => (branch_agrees n t t').bind fun _ _ first => ?_
      refine (furtherBranches_agrees n).bind fun _ _ rest => (otherwise_agrees n).bind
        fun _ _ last => (agrees_closing t t' _ _).bind fun _ _ _ => .pure ?_
      exact Stmt.same_choice (sameBranches_cons first rest) last
    · refine agrees_advance.bind fun _ _ _ => .ite Iff.rfl (.fault rfl) ?_
      refine (expression_agrees g n 1).bind fun _ _ test => (agrees_expect _ _).bind
        fun _ _ _ => (block_agrees n _).bind fun _ _ inner => ?_
      refine (agrees_closing t t' _ _).bind fun _ _ _ => .pure ?_
      rw [Stmt.same, test, inner]
      rfl
    · refine agrees_advance.bind fun _ _ _ => .ite Iff.rfl (.fault rfl) ?_
      refine (agrees_expect _ _).bind fun counter counter' named => (agrees_expect _ _).bind
        fun _ _ _ => (expression_agrees g n 1).bind fun _ _ start => ?_
      refine (agrees_expect _ _).bind fun _ _ _ => (expression_agrees g n 1).bind
        fun _ _ stop => (loopStep_agrees g n).bind fun _ _ step => ?_
      refine (agrees_expect _ _).bind fun _ _ _ => (block_agrees n _).bind fun _ _ inner => ?_
      refine (agrees_closing t t' _ _).bind fun _ _ _ => .pure ?_
      rw [named.name]
      exact Stmt.same_forLoop start stop step inner
    · refine agrees_advance.bind fun _ _ _ => (block_agrees n _).bind fun _ _ inner => ?_
      refine (agrees_closing t t' _ _).bind fun _ _ _ => .pure ?_
      rw [Stmt.same, Block.same]
      exact Block.same_statements inner
    · exact agrees_advance.bind fun _ _ _ => assignment_agrees g n t t' .bind
    · exact agrees_advance.bind fun _ _ _ => assignment_agrees g n t t' .update
    · exact agrees_advance.bind fun _ _ _ => .pure (by rw [Stmt.same])
    · refine agrees_peekSecond.bind fun _ _ second => .ite (second.is_iff _)
        (assignment_agrees g n t t' .bind) (.ite (second.is_iff _) ?_ ?_)
      · refine (call_agrees g n).bind fun _ _ same => .pure ?_
        rwa [Stmt.same]
      · rw [alike.lexeme]
        exact agrees_advance.bind fun _ _ _ => agrees_unexpected _
    · exact agrees_unexpected _

end

theorem script_agrees (n : Nat) :
    Agrees (fun b b' => b.same b' = true) (script g n) (script g n) :=
  (block_agrees g n _).bind fun _ _ same => (agrees_expect _ _).bind fun _ _ _ => .pure same

end

/-! ## Streams -/

/-- Why there is no tree, without the place and the line that are shown. -/
def ParseError.unplaced : ParseError → ParseError
  | .script e => .script ⟨e.fault, none, none⟩
  | .noEnd => .noEnd
  | .tooDeep => .tooDeep

/-- Two texts are read as equal trees, or refused for the same fault. -/
inductive ReadAlike : Except ParseError Block → Except ParseError Block → Prop
  | ok {b b' : Block} (same : b.same b' = true) : ReadAlike (.ok b) (.ok b')
  | error {e e' : ParseError} (same : e.unplaced = e'.unplaced) : ReadAlike (.error e) (.error e')

theorem faultError_unplaced (lines lines' : List String) (f : Fault) (span span' : Span) :
    (ParseError.script (faultError lines f span)).unplaced =
      (ParseError.script (faultError lines' f span')).unplaced := by
  cases f <;> rfl

/-- Streams of tokens that are equal but for their places are read alike. -/
theorem Block.ofStream_alike (g : Grammar) (lines lines' : List String)
    {tokens tokens' : List Token} (alike : List.Forall₂ Token.Alike tokens tokens') :
    ReadAlike (Block.ofStream g lines ⟨tokens, .finished⟩)
      (Block.ofStream g lines' ⟨tokens', .finished⟩) := by
  have items := groupComments_alike alike .nil
  have both := script_agrees g (parseDepth (groupComments [] tokens).length)
    ⟨groupComments [] tokens, none⟩ ⟨groupComments [] tokens', none⟩ items
  unfold Block.ofStream
  dsimp only
  rw [← items.length_eq]
  generalize script g _ _ = left at both
  generalize script g _ _ = right at both
  cases both with
  | ok same _ => exact .ok same
  | @error reason reason' same =>
    cases reason <;> cases reason' <;> cases same
    · exact .error (faultError_unplaced ..)
    · exact .error rfl
    · exact .error rfl

end InstallScript
