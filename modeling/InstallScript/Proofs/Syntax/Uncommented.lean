import InstallScript.Proofs.Syntax.Sound

/-!
Trees without their comments. Where comments are kept, the parser takes the same steps as where they
are dropped, and fails at the same token; what it makes differs by the statements that comments
become (`Block.ofSource_uncommented`).

`Sheds f p q` compares two parsers step by step: `q`, without the comments, gives what `f` makes of
the result of `p`, and stands at the same token afterwards.
-/

namespace InstallScript

open InstallScript.Parser

/-! ## Comments taken out -/

/-- Statements that are comments. -/
def Stmt.isComment : Stmt → Bool
  | .comment _ _ => true
  | _ => false

mutual

/-- A statement without the comments in its blocks. -/
def Stmt.uncommented : Stmt → Stmt
  | .choice span bs none => .choice span (branchesUncommented bs) none
  | .choice span bs (some b) => .choice span (branchesUncommented bs) (some b.uncommented)
  | .whileLoop span c b => .whileLoop span c b.uncommented
  | .forLoop span n first last step b => .forLoop span n first last step b.uncommented
  | .block b => .block b.uncommented
  | s => s

/-- Branches without the comments in their bodies. -/
def branchesUncommented : List Branch → List Branch
  | [] => []
  | .mk span c b :: rest => .mk span c b.uncommented :: branchesUncommented rest

/-- A block without the comments in it. Its stretch stays the same. -/
def Block.uncommented : Block → Block
  | .mk span ss => .mk span (stmtsUncommented ss)

/-- Statements without the comments among them and in their blocks. -/
def stmtsUncommented : List Stmt → List Stmt
  | [] => []
  | s :: rest =>
    if s.isComment then stmtsUncommented rest else s.uncommented :: stmtsUncommented rest

end

/-- A branch without the comments in its body. -/
def Branch.uncommented : Branch → Branch
  | .mk span c b => .mk span c b.uncommented

theorem branchesUncommented_cons (b : Branch) (bs : List Branch) :
    branchesUncommented (b :: bs) = b.uncommented :: branchesUncommented bs := by
  obtain ⟨span, c, body⟩ := b
  rw [branchesUncommented, Branch.uncommented]

theorem Stmt.uncommented_choice (span : Span) (bs : List Branch) (otherwise : Option Block) :
    (Stmt.choice span bs otherwise).uncommented =
      .choice span (branchesUncommented bs) (otherwise.map Block.uncommented) := by
  cases otherwise <;> simp only [Stmt.uncommented, Option.map]

theorem stmtsUncommented_cons {s : Stmt} (proper : s.isComment = false) (ss : List Stmt) :
    stmtsUncommented (s :: ss) = s.uncommented :: stmtsUncommented ss := by
  rw [stmtsUncommented, if_neg (by simp [proper])]

/-- Comments leave nothing behind. -/
theorem stmtsUncommented_comments (comments : List Token) (ss : List Stmt) :
    stmtsUncommented (comments.map commentStmt ++ ss) = stmtsUncommented ss := by
  induction comments with
  | nil => rfl
  | cons t comments ih =>
    rw [List.map_cons, List.cons_append, stmtsUncommented, commentStmt, Stmt.isComment,
      if_pos rfl, ih]

theorem Block.uncommented_statements (b : Block) :
    b.uncommented.statements = stmtsUncommented b.statements := by
  obtain ⟨span, ss⟩ := b
  rw [Block.uncommented, Block.statements, Block.statements]

theorem Block.uncommented_span (b : Block) : b.uncommented.span = b.span := by
  obtain ⟨span, ss⟩ := b
  rw [Block.uncommented, Block.span, Block.span]

/-- A statement that the grammar derives is no comment. -/
theorem Phrase.Statement.proper {g : Grammar} {ts : List Item} {s : Stmt}
    (phrase : Phrase.Statement g ts s) : s.isComment = false := by
  cases phrase <;> rfl

/-! ## Parsers side by side -/

/-- An item without the comments before its token. -/
def Item.uncommented (item : Item) : Item := .plain item.token

/-- The same place with no comments ahead. -/
def Cursor.uncommented (c : Cursor) : Cursor := ⟨c.rest.map Item.uncommented, c.previous⟩

/-- Where comments are taken out, the second parser does as the first one, and its value is what the
map makes of the value there. -/
def Sheds {α β : Type} (f : α → β) (p : Parser α) (q : Parser β) : Prop :=
  ∀ c, q c.uncommented = (p c).map fun (a, c') => (f a, c'.uncommented)

section

variable {α β γ δ : Type} {f : α → β} {h : γ → δ}

theorem Sheds.pure (a : α) : Sheds f (Pure.pure a) (Pure.pure (f a)) := fun _ => rfl

theorem Sheds.pure_of_eq {a : α} {b : β} (eq : f a = b) : Sheds f (Pure.pure a) (Pure.pure b) :=
  eq ▸ .pure a

theorem Sheds.halt (reason : Halt) : Sheds f (Parser.halt reason) (Parser.halt reason) :=
  fun _ => rfl

/-- One step after another. What the first step gave is known in the second one. -/
theorem Sheds.bind_of_ran {p : Parser α} {q : Parser β} {k : α → Parser γ} {l : β → Parser δ}
    (first : Sheds f p q)
    (second : ∀ a, (∃ c c', p c = .ok (a, c')) → Sheds h (k a) (l (f a))) :
    Sheds h (p >>= k) (q >>= l) := by
  intro c
  rw [bind_apply, bind_apply, first c]
  cases ran : p c with
  | error reason => rfl
  | ok out => exact second out.1 ⟨c, out.2, ran⟩ out.2

theorem Sheds.bind {p : Parser α} {q : Parser β} {k : α → Parser γ} {l : β → Parser δ}
    (first : Sheds f p q) (second : ∀ a, Sheds h (k a) (l (f a))) :
    Sheds h (p >>= k) (q >>= l) :=
  first.bind_of_ran fun a _ => second a

theorem Sheds.ite {P : Prop} [Decidable P] {p p' : Parser α} {q q' : Parser β}
    (left : Sheds f p q) (right : Sheds f p' q') :
    Sheds f (if P then p else p') (if P then q else q') := by
  split
  · exact left
  · exact right

theorem sheds_peek : Sheds id peek peek := by
  intro c
  obtain ⟨rest, previous⟩ := c
  cases rest <;> rfl

theorem sheds_peekSecond : Sheds id peekSecond peekSecond := by
  intro c
  obtain ⟨rest, previous⟩ := c
  match rest with
  | [] => rfl
  | [_] => rfl
  | _ :: _ :: _ => rfl

theorem sheds_peekComments : Sheds (fun _ => []) peekComments peekComments := by
  intro c
  obtain ⟨rest, previous⟩ := c
  cases rest <;> rfl

theorem sheds_advance : Sheds id advance advance := by
  intro c
  obtain ⟨rest, previous⟩ := c
  cases rest with
  | nil => rfl
  | cons item rest =>
    show Except.ok (item.token, _) = Except.ok (item.token, Cursor.uncommented ⟨_, _⟩)
    by_cases isEnd : item.token.kind = .endOfInput
    · simp [isEnd, Cursor.uncommented, Item.uncommented, Item.plain]
    · simp [isEnd, Cursor.uncommented, Item.uncommented, Item.plain]

theorem sheds_spanFrom (start : Token) : Sheds id (spanFrom start) (spanFrom start) := fun _ => rfl

theorem sheds_unexpected (expected : String) :
    Sheds f (unexpected expected) (unexpected expected) :=
  sheds_peek.bind fun _ => .ite (.halt _) (.halt _)

theorem sheds_expect (kind : TokenKind) (expected : String) :
    Sheds id (expect kind expected) (expect kind expected) :=
  sheds_peek.bind fun _ => .ite sheds_advance (sheds_unexpected expected)

theorem sheds_skipSemicolon : Sheds id skipSemicolon skipSemicolon :=
  sheds_peek.bind fun _ => .ite (sheds_advance.bind fun _ => .pure ()) (.pure ())

theorem sheds_closing (start : Token) (kind : TokenKind) (expected : String) :
    Sheds id (closing start kind expected) (closing start kind expected) :=
  (sheds_expect kind expected).bind fun _ => sheds_spanFrom start

end

/-! ## Expressions -/

section

variable (g : Grammar)

mutual

theorem expression_sheds : ∀ n least,
    Sheds id (expression g.withComments n least) (expression g n least)
  | 0, _ => by
    rw [expression, expression]
    exact .halt _
  | n + 1, least => by
    rw [expression, expression]
    exact (operand_sheds n).bind fun left => operators_sheds n least left

theorem operators_sheds : ∀ n least left,
    Sheds id (operators g.withComments n least left) (operators g n least left)
  | 0, _, _ => by
    rw [operators, operators]
    exact .halt _
  | n + 1, least, left => by
    rw [operators, operators]
    refine sheds_peek.bind fun t => ?_
    dsimp only [id]
    split
    · exact .pure left
    · refine .ite (.pure left) ?_
      refine sheds_advance.bind fun _ => ?_
      exact (expression_sheds n _).bind fun right => operators_sheds n least _

theorem operand_sheds : ∀ n, Sheds id (operand g.withComments n) (operand g n)
  | 0 => by
    rw [operand, operand]
    exact .halt _
  | n + 1 => by
    rw [operand, operand]
    refine sheds_peek.bind fun t => ?_
    dsimp only [id]
    split
    · exact primary_sheds n
    · exact sheds_advance.bind fun _ => (operand_sheds n).bind fun inner => .pure _

theorem primary_sheds : ∀ n, Sheds id (primary g.withComments n) (primary g n)
  | 0 => by
    rw [primary, primary]
    exact .halt _
  | n + 1 => by
    rw [primary, primary]
    refine sheds_peek.bind fun t => ?_
    dsimp only [id]
    have literal : Sheds id (advance >>= fun _ => Pure.pure (Expr.literal t.span (literalOf t)))
        (advance >>= fun _ => Pure.pure (Expr.literal t.span (literalOf t))) :=
      sheds_advance.bind fun _ => .pure _
    split
    · exact literal
    · exact literal
    · exact literal
    · refine sheds_peekSecond.bind fun second => .ite ?_ ?_
      · exact (call_sheds n).bind fun c => .pure _
      · exact sheds_advance.bind fun _ => .pure _
    · refine sheds_advance.bind fun _ => (expression_sheds n 1).bind fun inner => ?_
      exact (sheds_expect _ _).bind fun _ => .pure inner
    · exact .halt _
    · exact .halt _

theorem call_sheds : ∀ n, Sheds id (call g.withComments n) (call g n)
  | 0 => by
    rw [call, call]
    exact .halt _
  | n + 1 => by
    rw [call, call]
    refine (sheds_expect _ _).bind fun name => (sheds_expect _ _).bind fun _ => ?_
    have closes (positional : List Expr) (keywords : List KeywordArgument) : Sheds id
        (expect .rightParen "',' or ')'" >>= fun _ => spanFrom name >>= fun span =>
          Pure.pure (Call.mk span name.name positional keywords))
        (expect .rightParen "',' or ')'" >>= fun _ => spanFrom name >>= fun span =>
          Pure.pure (Call.mk span name.name positional keywords)) :=
      (sheds_expect _ _).bind fun _ => (sheds_spanFrom name).bind fun span => .pure _
    refine sheds_peek.bind fun t => .ite ?_ ?_
    · exact closes [] []
    · exact (arguments_sheds n name [] []).bind fun (positional, keywords) => closes _ _

theorem arguments_sheds : ∀ n function positional keywords,
    Sheds id (arguments g.withComments n function positional keywords)
      (arguments g n function positional keywords)
  | 0, _, _, _ => by
    rw [arguments, arguments]
    exact .halt _
  | n + 1, function, positional, keywords => by
    rw [arguments, arguments]
    refine (argument_sheds n function positional keywords).bind fun given => ?_
    refine sheds_peek.bind fun t => .ite ?_ (.pure _)
    exact sheds_advance.bind fun _ => arguments_sheds n function _ _

theorem argument_sheds : ∀ n function positional keywords,
    Sheds id (argument g.withComments n function positional keywords)
      (argument g n function positional keywords)
  | 0, _, _, _ => by
    rw [argument, argument]
    exact .halt _
  | n + 1, function, positional, keywords => by
    rw [argument, argument]
    have value : Sheds id
        (expression g.withComments n 1 >>= fun value => Pure.pure (positional ++ [value], keywords))
        (expression g n 1 >>= fun value => Pure.pure (positional ++ [value], keywords)) :=
      (expression_sheds n 1).bind fun value => .pure _
    refine sheds_peek.bind fun start => .ite ?_ ?_
    · refine sheds_peekSecond.bind fun second => .ite (.halt _) (.ite ?_ (.ite value (.halt _)))
      refine sheds_advance.bind fun _ => sheds_advance.bind fun _ => ?_
      exact (expression_sheds n 1).bind fun value => (sheds_spanFrom start).bind fun _ => .pure _
    · dsimp only [Bool.false_and]
      exact .ite value (.halt _)

end

/-! ## Statements -/

theorem assignment_sheds (n : Nat) (start : Token) (mode : AssignMode) :
    Sheds Stmt.uncommented (assignment g.withComments n start mode)
      (assignment g n start mode) := by
  refine (sheds_expect _ _).bind fun name => (sheds_expect _ _).bind fun _ => ?_
  refine (expression_sheds g n 1).bind fun value => (sheds_spanFrom start).bind fun span => ?_
  exact .pure (Stmt.assign span mode name.name value)

theorem loopStep_sheds (n : Nat) : Sheds id (loopStep g.withComments n) (loopStep g n) := by
  refine sheds_peek.bind fun t => .ite ?_ (.pure none)
  exact sheds_advance.bind fun _ => (expression_sheds g n 1).bind fun step => .pure _

mutual

theorem statements_sheds : ∀ n ends,
    Sheds stmtsUncommented (statements g.withComments n ends) (statements g n ends)
  | 0, _ => by
    rw [statements, statements]
    exact .halt _
  | n + 1, ends => by
    rw [statements, statements]
    refine sheds_peekComments.bind fun comments => sheds_peek.bind fun t => .ite ?_ (.ite ?_ ?_)
    · have none := stmtsUncommented_comments comments []
      rw [List.append_nil, stmtsUncommented] at none
      exact .pure_of_eq none
    · exact sheds_unexpected _
    · refine (statement_sheds n).bind_of_ran fun first ⟨c, c', ran⟩ => ?_
      refine sheds_skipSemicolon.bind fun _ => (statements_sheds n ends).bind fun rest => ?_
      obtain ⟨word, ts, -, phrase⟩ := statement_sound n ran
      have both : stmtsUncommented (comments.map commentStmt ++ first :: rest) =
          first.uncommented :: stmtsUncommented rest := by
        rw [stmtsUncommented_comments, stmtsUncommented_cons phrase.proper]
      exact .pure_of_eq both

theorem block_sheds : ∀ n ends,
    Sheds Block.uncommented (block g.withComments n ends) (block g n ends)
  | 0, _ => by
    rw [block, block]
    exact .halt _
  | n + 1, ends => by
    rw [block, block]
    refine sheds_peek.bind fun start => (statements_sheds n ends).bind fun body => ?_
    refine (sheds_spanFrom start).bind fun span => ?_
    exact .pure_of_eq (by rw [Block.uncommented]; rfl)

theorem branch_sheds : ∀ n start,
    Sheds Branch.uncommented (branch g.withComments n start) (branch g n start)
  | 0, _ => by
    rw [branch, branch]
    exact .halt _
  | n + 1, start => by
    rw [branch, branch]
    refine (expression_sheds g n 1).bind fun condition => (sheds_expect _ _).bind fun _ => ?_
    exact (block_sheds n _).bind fun body => (sheds_spanFrom start).bind fun span => .pure _

theorem furtherBranches_sheds : ∀ n,
    Sheds branchesUncommented (furtherBranches g.withComments n) (furtherBranches g n)
  | 0 => by
    rw [furtherBranches, furtherBranches]
    exact .halt _
  | n + 1 => by
    rw [furtherBranches, furtherBranches]
    refine sheds_peek.bind fun t => .ite ?_ ?_
    · refine sheds_advance.bind fun start => (branch_sheds n start).bind fun first => ?_
      refine (furtherBranches_sheds n).bind fun rest => ?_
      exact .pure_of_eq (branchesUncommented_cons first rest)
    · exact .pure_of_eq (by rw [branchesUncommented])

theorem otherwise_sheds : ∀ n, Sheds (Option.map Block.uncommented)
    (otherwise g.withComments n) (otherwise g n)
  | 0 => by
    rw [otherwise, otherwise]
    exact .halt _
  | n + 1 => by
    rw [otherwise, otherwise]
    refine sheds_peek.bind fun t => .ite ?_ (.pure none)
    refine sheds_advance.bind fun start => (block_sheds n _).bind fun body => ?_
    refine (sheds_spanFrom start).bind fun span => ?_
    have made : (some (Block.mk span body.statements)).map Block.uncommented =
        some (.mk span body.uncommented.statements) := by
      rw [Block.uncommented_statements, Option.map_some, Block.uncommented]
    exact .pure_of_eq made

theorem statement_sheds : ∀ n,
    Sheds Stmt.uncommented (statement g.withComments n) (statement g n)
  | 0 => by
    rw [statement, statement]
    exact .halt _
  | n + 1 => by
    rw [statement, statement]
    refine sheds_peek.bind fun t => ?_
    dsimp only [id]
    split
    · refine sheds_advance.bind fun _ => (branch_sheds n t).bind fun first => ?_
      refine (furtherBranches_sheds n).bind fun rest => (otherwise_sheds n).bind fun last => ?_
      refine (sheds_closing t _ _).bind fun span => ?_
      have made := Stmt.uncommented_choice span (first :: rest) last
      rw [branchesUncommented_cons] at made
      exact .pure_of_eq made
    · refine sheds_advance.bind fun _ => .ite (.halt _) ?_
      refine (expression_sheds g n 1).bind fun condition => (sheds_expect _ _).bind fun _ => ?_
      refine (block_sheds n _).bind fun body => (sheds_closing t _ _).bind fun span => ?_
      exact .pure_of_eq (by rw [Stmt.uncommented]; rfl)
    · refine sheds_advance.bind fun _ => .ite (.halt _) ?_
      refine (sheds_expect _ _).bind fun counter => (sheds_expect _ _).bind fun _ => ?_
      refine (expression_sheds g n 1).bind fun first => (sheds_expect _ _).bind fun _ => ?_
      refine (expression_sheds g n 1).bind fun last => (loopStep_sheds g n).bind fun step => ?_
      refine (sheds_expect _ _).bind fun _ => (block_sheds n _).bind fun body => ?_
      refine (sheds_closing t _ _).bind fun span => ?_
      exact .pure_of_eq (by rw [Stmt.uncommented]; rfl)
    · refine sheds_advance.bind fun _ => (block_sheds n _).bind fun body => ?_
      refine (sheds_closing t _ _).bind fun span => ?_
      have made : (Stmt.block (.mk span body.statements)).uncommented =
          .block (.mk span body.uncommented.statements) := by
        rw [Block.uncommented_statements, Stmt.uncommented, Block.uncommented]
      exact .pure_of_eq made
    · exact sheds_advance.bind fun _ => assignment_sheds g n t .bind
    · exact sheds_advance.bind fun _ => assignment_sheds g n t .update
    · exact sheds_advance.bind fun _ => .pure (Stmt.ret t.span)
    · refine sheds_peekSecond.bind fun second => .ite (assignment_sheds g n t .bind) (.ite ?_ ?_)
      · exact (call_sheds g n).bind fun c => .pure (Stmt.call c)
      · exact sheds_advance.bind fun _ => sheds_unexpected _
    · exact sheds_unexpected _

end

theorem script_sheds (n : Nat) :
    Sheds Block.uncommented (script g.withComments n) (script g n) :=
  (block_sheds g n _).bind fun _ => (sheds_expect _ _).bind fun _ => .pure _

end

/-! ## Texts -/

/-- A stream without the comments in it. -/
def TokenStream.uncommented (s : TokenStream) : TokenStream :=
  ⟨s.tokens.filter (·.kind ≠ .comment), s.ending⟩

/-- Without comments there are the same items, with none before them. -/
theorem groupComments_uncommented (comments tokens : List Token) :
    groupComments [] (tokens.filter (·.kind ≠ .comment)) =
      (groupComments comments tokens).map Item.uncommented := by
  induction tokens generalizing comments with
  | nil => rfl
  | cons t tokens ih =>
    by_cases isComment : t.kind = .comment
    · rw [List.filter_cons_of_neg (by simp [isComment]), groupComments, if_pos isComment]
      exact ih _
    · rw [List.filter_cons_of_pos (by simp [isComment]), groupComments, groupComments,
        if_neg isComment, if_neg isComment, List.map_cons, ih []]
      rfl

theorem Block.ofStream_uncommented (g : Grammar) (lines : List String) (s : TokenStream) :
    Block.ofStream g lines s.uncommented =
      (Block.ofStream g.withComments lines s).map Block.uncommented := by
  have items := groupComments_uncommented [] s.tokens
  have count := congrArg List.length items
  rw [List.length_map] at count
  unfold Block.ofStream
  dsimp only [TokenStream.uncommented]
  rw [count, items]
  have same := script_sheds g (parseDepth (groupComments [] s.tokens).length)
    ⟨groupComments [] s.tokens, none⟩
  rw [Cursor.uncommented] at same
  rw [same]
  cases script g.withComments _ _ with
  | ok out => rfl
  | error reason =>
    cases reason with
    | fault fault span => rfl
    | noToken => cases s.ending <;> rfl
    | tooDeep => rfl

/-- Texts have the same tokens in both cases, but for the comments. -/
theorem TokenStream.tokensFrom_uncommented {g : Grammar} (dropped : g.retainComments = false)
    (file : Option String) (lines : List String) (steps : Nat) (place : Location) (cs : List Char) :
    tokensFrom g file lines steps place cs =
      (tokensFrom g.withComments file lines steps place cs).uncommented := by
  induction steps generalizing place cs with
  | zero => rfl
  | succ steps ih =>
    rw [tokensFrom, tokensFrom]
    dsimp only
    split
    · rfl
    · rename_i c rest _
      have same : scan g.withComments c rest = scan g c rest := rfl
      rw [same]
      split
      · rfl
      · rename_i kind value length found
        have kept : ¬ (kind = .comment ∧ g.withComments.retainComments = false) := nofun
        rw [ih, if_neg kept]
        by_cases isComment : kind = .comment
        · rw [if_pos ⟨isComment, dropped⟩]
          simp [cons, uncommented, isComment]
        · rw [if_neg fun both => isComment both.1]
          simp [cons, uncommented, isComment]

/-- A script without comments is read as one with comments, which are then taken out. Nothing is
read if and only if nothing is read there, for the same reason. -/
theorem Block.ofSource_uncommented {g : Grammar} (dropped : g.retainComments = false)
    (source : Source) :
    Block.ofSource g source = (Block.ofSource g.withComments source).map Block.uncommented := by
  unfold Block.ofSource
  rw [← Block.ofStream_uncommented, TokenStream.ofSource,
    TokenStream.tokensFrom_uncommented dropped]
  rfl

end InstallScript
