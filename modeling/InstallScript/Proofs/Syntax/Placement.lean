import Mathlib.Data.List.Pairwise
import InstallScript.Proofs.Syntax.Tiling
import InstallScript.Proofs.Syntax.Uncommented

/-!
Where the comments of a text go in its tree: before the statement that the next token begins, or at
the end of the block that it closes. So a tree with comments is the one without, with the comments
of the text put in (`Phrase.Statements.commented`).

The tree without comments does not tell the tokens apart, but its stretches do: one begins where the
first token of a statement does, and one ends where the token does that closes a block.
-/

namespace InstallScript

/-! ## Comments of a text -/

/-- The comments whose next token, comments aside, satisfies a condition. -/
def commentsAhead (p : Token → Bool) : List Token → List Token
  | [] => []
  | t :: rest =>
    if t.kind = .comment ∧ (rest.find? (·.kind ≠ .comment)).any p then t :: commentsAhead p rest
    else commentsAhead p rest

/-- A comment of a text as a statement, which has what is between the marks of the comment, without
the blanks around it. -/
def commentOf (text : List Char) (t : Token) : Stmt :=
  .comment t.span
    (String.ofList (Text.strip (commentBody (charsBetween text t.span.start t.span.stop))))

/-- The comments of a text before the tokens that satisfy a condition, as statements. -/
def commentStmtsAhead (text : List Char) (tokens : List Token) (p : Token → Bool) : List Stmt :=
  (commentsAhead p tokens).map (commentOf text)

/-! ## Comments put into a tree -/

/-- The tokens that begin a stretch. -/
def begins (span : Span) (t : Token) : Bool := t.span.start = span.start

/-- The tokens that end a stretch. The end of the input, which takes up no room, ends none. -/
def ends (span : Span) (t : Token) : Bool := t.kind ≠ .endOfInput ∧ t.span.stop = span.stop

/-- The part of a choice behind a branch begins with the token that closes the branch; behind the
last part is the last token of the choice. -/
def closesBranch (choice : Span) (next : List Branch) (otherwise : Option Span) : Token → Bool :=
  match next, otherwise with
  | b :: _, _ => begins b.span
  | [], some span => begins span
  | [], none => ends choice

mutual

/-- A statement with comments put into its blocks, which are looked up by the token that follows
them. -/
def Stmt.commented (place : (Token → Bool) → List Stmt) : Stmt → Stmt
  | .choice span bs none => .choice span (branchesCommented place span none bs) none
  | .choice span bs (some b) =>
    .choice span (branchesCommented place span (some b.span) bs)
      (some (b.commented place (ends span)))
  | .whileLoop span c b => .whileLoop span c (b.commented place (ends span))
  | .forLoop span n first last step b =>
    .forLoop span n first last step (b.commented place (ends span))
  | .block b => .block (b.commented place (ends b.span))
  | s => s

/-- The branches of a choice with comments put into their bodies. -/
def branchesCommented (place : (Token → Bool) → List Stmt) (choice : Span)
    (otherwise : Option Span) : List Branch → List Branch
  | [] => []
  | .mk span c b :: rest =>
    .mk span c (b.commented place (closesBranch choice rest otherwise)) ::
      branchesCommented place choice otherwise rest

/-- A block with comments put into it; the token that closes it is given. -/
def Block.commented (place : (Token → Bool) → List Stmt) (closes : Token → Bool) : Block → Block
  | .mk span ss => .mk span (stmtsCommented place closes ss)

/-- Statements with the comments before each of them, and at the end those before the token that
closes their block. -/
def stmtsCommented (place : (Token → Bool) → List Stmt) (closes : Token → Bool) :
    List Stmt → List Stmt
  | [] => place closes
  | s :: rest => place (begins s.span) ++ s.commented place :: stmtsCommented place closes rest

end

theorem Stmt.commented_choice (place : (Token → Bool) → List Stmt) (span : Span) (bs : List Branch)
    (otherwise : Option Block) : (Stmt.choice span bs otherwise).commented place =
      .choice span (branchesCommented place span (otherwise.map Block.span) bs)
        (otherwise.map (Block.commented place (ends span))) := by
  cases otherwise <;> simp only [Stmt.commented, Option.map]

theorem branchesCommented_cons (place : (Token → Bool) → List Stmt) (choice : Span)
    (otherwise : Option Span) (b : Branch) (bs : List Branch) :
    branchesCommented place choice otherwise (b :: bs) =
      .mk b.span b.condition (b.body.commented place (closesBranch choice bs otherwise)) ::
        branchesCommented place choice otherwise bs := by
  obtain ⟨span, c, body⟩ := b
  rw [branchesCommented]
  rfl

theorem Stmt.uncommented_span (s : Stmt) : s.uncommented.span = s.span := by
  cases s with
  | choice span bs otherwise =>
    rw [Stmt.uncommented_choice]
    rfl
  | block b =>
    rw [Stmt.uncommented]
    exact Block.uncommented_span b
  | _ => simp only [Stmt.uncommented, Stmt.span]

theorem closesBranch_uncommented (choice : Span) (bs : List Branch) (otherwise : Option Span) :
    closesBranch choice (branchesUncommented bs) otherwise = closesBranch choice bs otherwise := by
  cases bs with
  | nil => rw [branchesUncommented]
  | cons b bs =>
    obtain ⟨span, c, body⟩ := b
    rw [branchesUncommented]
    rfl

theorem Block.map_uncommented_span (otherwise : Option Block) :
    (otherwise.map Block.uncommented).map Block.span = otherwise.map Block.span := by
  cases otherwise with
  | none => rfl
  | some b => exact congrArg some b.uncommented_span

/-! ## Items -/

/-- The items of tokens have their tokens, but for the comments. -/
theorem groupComments_tokens (comments tokens : List Token) :
    (groupComments comments tokens).map Item.token = tokens.filter (·.kind ≠ .comment) := by
  induction tokens generalizing comments with
  | nil => rfl
  | cons t tokens ih =>
    by_cases isComment : t.kind = .comment
    · rw [List.filter_cons_of_neg (by simp [isComment]), groupComments, if_pos isComment]
      exact ih _
    · rw [List.filter_cons_of_pos (by simp [isComment]), groupComments, if_neg isComment,
        List.map_cons, ih []]

/-- The comments before an item, if its token satisfies a condition. -/
def Item.commentsIf (p : Token → Bool) (item : Item) : List Token :=
  if p item.token then item.comments else []

/-- Comments are looked up among the items as among the tokens. -/
theorem commentsAhead_eq (p : Token → Bool) (tokens : List Token) :
    commentsAhead p tokens = (groupComments [] tokens).flatMap (Item.commentsIf p) := by
  have general (comments : List Token) :
      (groupComments comments tokens).flatMap (Item.commentsIf p) =
        (if (tokens.find? (·.kind ≠ .comment)).any p then comments.reverse else []) ++
          commentsAhead p tokens := by
    induction tokens generalizing comments with
    | nil => rfl
    | cons t tokens ih =>
      by_cases isComment : t.kind = .comment
      · rw [groupComments, if_pos isComment, ih, List.find?_cons_of_neg (by simp [isComment]),
          commentsAhead, List.reverse_cons]
        cases (tokens.find? (·.kind ≠ .comment)).any p <;> simp [isComment]
      · have none : ¬ (t.kind = .comment ∧ (tokens.find? (·.kind ≠ .comment)).any p = true) :=
          fun both => isComment both.1
        rw [groupComments, if_neg isComment, List.flatMap_cons, ih [],
          List.find?_cons_of_pos (by simp [isComment]), commentsAhead, if_neg none,
          Item.commentsIf, List.reverse_nil, ite_self, List.nil_append, Option.any_some]
  rw [general []]
  simp

/-- Two entries of an ordered list, of which neither comes first, are the same. -/
theorem eq_of_neither {α : Type} {R : α → α → Prop} {as : List α} {a b : α}
    (ordered : as.Pairwise R) (inA : a ∈ as) (inB : b ∈ as) (forward : ¬ R a b)
    (backward : ¬ R b a) : a = b := by
  have symmetric : Std.Symm fun x y => R x y ∨ R y x := ⟨fun _ _ => Or.symm⟩
  have either : as.Pairwise fun x y => R x y ∨ R y x := ordered.imp Or.inl
  by_contra apart
  exact (either.forall inA inB apart).elim forward backward

/-- Items whose tokens follow one another. Only the end of the input may take up no room. -/
def InOrder (items : List Item) : Prop :=
  items.Pairwise fun a b => a.token.span.start.offset < b.token.span.start.offset ∧
    (b.kind ≠ .endOfInput → a.token.span.stop.offset < b.token.span.stop.offset)

section

variable {items ts us : List Item} {a b : Item}

theorem InOrder.left (ordered : InOrder (ts ++ us)) : InOrder ts :=
  (List.pairwise_append.1 ordered).1

theorem InOrder.right (ordered : InOrder (ts ++ us)) : InOrder us :=
  (List.pairwise_append.1 ordered).2.1

theorem InOrder.tail (ordered : InOrder (a :: ts)) : InOrder ts :=
  (List.pairwise_cons.1 ordered).2

/-- Different items begin at different places. -/
theorem InOrder.eq_of_start (ordered : InOrder items) (inA : a ∈ items) (inB : b ∈ items)
    (same : a.token.span.start = b.token.span.start) : a = b := by
  have offset := congrArg Location.offset same
  exact eq_of_neither ordered inA inB (fun less => absurd offset (Nat.ne_of_lt less.1))
    fun less => absurd offset (Nat.ne_of_gt less.1)

/-- Different items end at different places, the end of the input aside. -/
theorem InOrder.eq_of_stop (ordered : InOrder items) (inA : a ∈ items) (inB : b ∈ items)
    (kindA : a.kind ≠ .endOfInput) (kindB : b.kind ≠ .endOfInput)
    (same : a.token.span.stop = b.token.span.stop) : a = b := by
  have offset := congrArg Location.offset same
  exact eq_of_neither ordered inA inB (fun less => absurd offset (Nat.ne_of_lt (less.2 kindB)))
    fun less => absurd offset (Nat.ne_of_gt (less.2 kindA))

/-- The comments before the only item whose token satisfies a condition. -/
theorem InOrder.commentsIf (ordered : InOrder items) (member : a ∈ items) {p : Token → Bool}
    (holds : p a.token = true) (only : ∀ b ∈ items, p b.token = true → b = a) :
    items.flatMap (Item.commentsIf p) = a.comments := by
  obtain ⟨front, back, rfl⟩ := List.append_of_mem member
  obtain ⟨-, behind, across⟩ := List.pairwise_append.1 ordered
  have later := (List.pairwise_cons.1 behind).1
  have none (us : List Item) (apart : ∀ b ∈ us, b ∈ front ++ a :: back ∧ b ≠ a) :
      us.flatMap (Item.commentsIf p) = [] := by
    apply List.flatMap_eq_nil_iff.2
    intro b inside
    rw [Item.commentsIf, if_neg fun found => (apart b inside).2 (only b (apart b inside).1 found)]
  rw [List.flatMap_append, List.flatMap_cons, none front, none back, Item.commentsIf, if_pos holds]
  · simp
  · intro b inside
    refine ⟨List.mem_append_right _ (List.mem_cons_of_mem _ inside), fun same => ?_⟩
    exact absurd (same ▸ (later b inside).1) (Nat.lt_irrefl _)
  · intro b inside
    refine ⟨List.mem_append_left _ inside, fun same => ?_⟩
    exact absurd (same ▸ (across b inside a List.mem_cons_self).1) (Nat.lt_irrefl _)

end

/-! ## Comments in their places -/

/-- The comments before each of some items are found by where its token begins, and by where it
ends. -/
structure Located (place : (Token → Bool) → List Stmt) (items : List Item) : Prop where
  byStart : ∀ item ∈ items, ∀ span : Span, span.start = item.token.span.start →
    place (begins span) = item.comments.map Parser.commentStmt
  byStop : ∀ item ∈ items, item.kind ≠ .endOfInput → ∀ span : Span,
    span.stop = item.token.span.stop → place (ends span) = item.comments.map Parser.commentStmt

theorem Located.mono {place : (Token → Bool) → List Stmt} {items ts : List Item}
    (located : Located place items) (inside : ∀ item ∈ ts, item ∈ items) : Located place ts :=
  ⟨fun item member => located.byStart item (inside item member),
    fun item member => located.byStop item (inside item member)⟩

/-- A stretch of tokens ends where the last one of them does. -/
theorem through_stop (word : Token) (front : List Item) (last : Item) :
    (word.through none (front ++ [last])).stop = last.token.span.stop := by
  rw [Token.through, lastToken_append, lastToken_singleton]
  rfl

/-- The comments before the last token of a stretch are found by the end of the stretch. -/
theorem Located.last {place : (Token → Bool) → List Stmt} {word last : Item} {front : List Item}
    {kind : TokenKind} (located : Located place (word :: (front ++ [last])))
    (lastKind : last.kind = kind) (notEnd : kind ≠ .endOfInput := by decide) :
    place (ends (word.token.through none (front ++ [last]))) =
      last.comments.map Parser.commentStmt :=
  located.byStop last (by simp) (lastKind ▸ notEnd) _ (through_stop word.token front last)

namespace Phrase

variable {g : Grammar} {place : (Token → Bool) → List Stmt}

/-- A statement begins with its first token. -/
theorem Statement.start_eq {first : Item} {ts : List Item} {s : Stmt}
    (phrase : Statement g (first :: ts) s) : s.span.start = first.token.span.start := by
  generalize whole : first :: ts = items at phrase
  cases phrase with
  | call inner => cases inner <;> cases whole <;> rfl
  | _ => cases whole; rfl

mutual

theorem Statement.commented {ts : List Item} {s : Stmt} :
    Statement g ts s → Located place ts → s.uncommented.commented place = s
  | .assign _, _ => by simp only [Stmt.uncommented, Stmt.commented]
  | .letAssign _ _, _ => by simp only [Stmt.uncommented, Stmt.commented]
  | .setAssign _ _, _ => by simp only [Stmt.uncommented, Stmt.commented]
  | .call _, _ => by simp only [Stmt.uncommented, Stmt.commented]
  | .ret _, _ => by simp only [Stmt.uncommented, Stmt.commented]
  | @Statement.choice _ word closing ts us b bs otherwise _ first others, located => by
    have inside : Located place (closing :: us) :=
      located.mono fun item member => List.mem_cons_of_mem _ (List.mem_append_right _ member)
    have inFirst : Located place ts :=
      located.mono fun item member => List.mem_cons_of_mem _ (List.mem_append_left _ member)
    have ending (front : List Item) (last : Item) (eq : closing :: us = front ++ [last])
        (isEnd : last.kind = .endifWord) :
        place (ends (word.token.through none (ts ++ closing :: us))) =
          last.comments.map Parser.commentStmt := by
      rw [eq, ← List.append_assoc] at located ⊢
      exact located.last isEnd
    obtain ⟨closes, woven, wovenLast⟩ := others.commented rfl inside ending
    have wovenFirst := first.commented inFirst closes
    rw [Stmt.uncommented_choice, Stmt.commented_choice, branchesUncommented_cons,
      branchesCommented_cons, Block.map_uncommented_span, closesBranch_uncommented, woven,
      Option.map_map, Function.comp_def, wovenLast]
    obtain ⟨span, c, body⟩ := b
    exact congrArg (fun body => Stmt.choice _ (.mk span c body :: bs) otherwise) wovenFirst
  | @Statement.whileLoop _ word doWord closing cs body _ _ _ _ _ _ inner closingKind, located => by
    have split : cs ++ doWord :: (body ++ [closing]) = (cs ++ doWord :: body) ++ [closing] := by
      simp
    rw [split] at located ⊢
    have inside : Located place body := located.mono fun item member => by simp [member]
    rw [Stmt.uncommented, Stmt.commented, inner.commented inside (located.last closingKind)]
  | @Statement.forLoop _ word counter sign toWord doWord closing fs ls ss body _ _ _ _ _ _ _ _ _ _ _
      _ _ inner closingKind, located => by
    have split :
        counter :: sign :: (fs ++ toWord :: (ls ++ (ss ++ doWord :: (body ++ [closing])))) =
          (counter :: sign :: (fs ++ toWord :: (ls ++ (ss ++ doWord :: body)))) ++ [closing] := by
      simp
    rw [split] at located ⊢
    have inside : Located place body := located.mono fun item member => by simp [member]
    rw [Stmt.uncommented, Stmt.commented, inner.commented inside (located.last closingKind)]
  | .block _ inner closingKind, located => by
    have inside : Located place _ :=
      located.mono fun item member => List.mem_cons_of_mem _ (List.mem_append_left _ member)
    rw [Stmt.uncommented, Stmt.commented, Block.uncommented, Block.span, Block.commented,
      inner.commented inside (located.last closingKind)]

theorem Statements.commented {ts : List Item} {closing : Item} {ss : List Stmt}
    {closes : Token → Bool} : Statements g ts closing ss → Located place ts →
      place closes = closing.comments.map Parser.commentStmt →
        stmtsCommented place closes (stmtsUncommented ss) = ss
  | .nil, _, lookup => by
    have none := stmtsUncommented_comments closing.comments []
    rw [List.append_nil] at none
    rw [none, stmtsUncommented, stmtsCommented, lookup]
  | @Statements.cons _ first _ ts separator us s ss statement _ others, located, lookup => by
    have inStatement : Located place (first :: ts) :=
      located.mono fun item member => by
        rcases List.mem_cons.1 member with rfl | later
        · exact List.mem_cons_self
        · simp [later]
    have inOthers : Located place us := located.mono fun item member => by simp [member]
    have before : place (begins s.uncommented.span) = first.comments.map Parser.commentStmt := by
      rw [Stmt.uncommented_span]
      exact located.byStart first List.mem_cons_self _ statement.start_eq
    rw [stmtsUncommented_comments, stmtsUncommented_cons statement.proper, stmtsCommented, before,
      statement.commented inStatement, others.commented inOthers lookup]

theorem Body.commented {before : Option Token} {ts : List Item} {closing : Item} {b : Block}
    {closes : Token → Bool} : Body g before ts closing b → Located place ts →
      place closes = closing.comments.map Parser.commentStmt →
        b.uncommented.commented place closes = b
  | .mk inner, located, lookup => by
    rw [Block.uncommented, Block.commented, inner.commented located lookup]

theorem Guarded.commented {word closing : Item} {ts : List Item} {b : Branch}
    {closes : Token → Bool} : Guarded g word ts closing b → Located place ts →
      place closes = closing.comments.map Parser.commentStmt →
        b.body.uncommented.commented place closes = b.body
  | .mk _ _ inner, located, lookup => by
    have inside : Located place _ :=
      located.mono fun item member => List.mem_append_right _ (List.mem_cons_of_mem _ member)
    exact inner.commented inside lookup

/-- The first one of the items behind a branch is the token that closes the branch. -/
theorem Alternatives.commented {items : List Item} {bs : List Branch} {otherwise : Option Block}
    {closing : Item} {choice : Span} : Alternatives g items bs otherwise →
      items.head? = some closing → Located place items →
      (∀ front last, items = front ++ [last] → last.kind = .endifWord →
        place (ends choice) = last.comments.map Parser.commentStmt) →
        place (closesBranch choice bs (otherwise.map Block.span)) =
            closing.comments.map Parser.commentStmt ∧
          branchesCommented place choice (otherwise.map Block.span) (branchesUncommented bs) = bs ∧
          otherwise.map (fun b => b.uncommented.commented place (ends choice)) = otherwise
  | @Alternatives.done _ last isEnd, head, _, lookup => by
    obtain rfl : last = closing := Option.some.inj head
    rw [branchesUncommented, branchesCommented]
    exact ⟨lookup [] last rfl isEnd, rfl, rfl⟩
  | @Alternatives.otherwise _ word last body ss _ inner isEnd, head, located, lookup => by
    obtain rfl : word = closing := Option.some.inj head
    have inside : Located place body :=
      located.mono fun item member => List.mem_cons_of_mem _ (List.mem_append_left _ member)
    have woven := inner.commented inside (lookup (word :: body) last rfl isEnd)
    rw [branchesUncommented, branchesCommented]
    refine ⟨located.byStart word List.mem_cons_self _ rfl, rfl, ?_⟩
    rw [Option.map_some, Block.uncommented, Block.commented, woven]
  | @Alternatives.guarded _ word next ts us b bs otherwise _ first others, head, located,
      lookup => by
    obtain rfl : word = closing := Option.some.inj head
    have inside : Located place (next :: us) :=
      located.mono fun item member => List.mem_cons_of_mem _ (List.mem_append_right _ member)
    have inFirst : Located place ts :=
      located.mono fun item member => List.mem_cons_of_mem _ (List.mem_append_left _ member)
    obtain ⟨closes, woven, wovenLast⟩ := others.commented rfl inside fun front last eq isEnd =>
      lookup (word :: (ts ++ front)) last (by rw [eq, List.cons_append, List.append_assoc]) isEnd
    have wovenFirst := first.commented inFirst closes
    have start : b.span.start = word.token.span.start := by
      cases first
      rfl
    refine ⟨located.byStart word List.mem_cons_self _ start, ?_, wovenLast⟩
    rw [branchesUncommented_cons, branchesCommented_cons, closesBranch_uncommented, woven]
    obtain ⟨span, c, body⟩ := b
    exact congrArg (fun body => Branch.mk span c body :: bs) wovenFirst

end

end Phrase

end InstallScript
