import InstallScript.Dialect
import InstallScript.Proofs.Syntax.Placement
import InstallScript.Proofs.Syntax.RoundTrip

/-!
What becomes of the comments of a text that are kept. Those right before a token that begins a
statement or closes a block are in the tree, once each and in order; all others leave no trace. So
keeping comments only adds comments to a tree (`comments_only_added`).

Along the grammar, the comments among the statements of a phrase are compared with those before its
tokens (`Claims`).
-/

namespace InstallScript

/-! ## All statements of a tree -/

mutual

/-- The statements in the blocks of a statement, at any depth. -/
def Stmt.inner : Stmt → List Stmt
  | .choice _ bs none => branchesInner bs
  | .choice _ bs (some b) => branchesInner bs ++ b.allStmts
  | .whileLoop _ _ b => b.allStmts
  | .forLoop _ _ _ _ _ b => b.allStmts
  | .block b => b.allStmts
  | _ => []

/-- The statements in the bodies of branches. -/
def branchesInner : List Branch → List Stmt
  | [] => []
  | .mk _ _ b :: rest => b.allStmts ++ branchesInner rest

/-- The statements of a block at any depth, in the order of the text. -/
def Block.allStmts : Block → List Stmt
  | .mk _ ss => allStmts ss

/-- Statements, each with those in its blocks behind it. -/
def allStmts : List Stmt → List Stmt
  | [] => []
  | s :: rest => s :: (s.inner ++ allStmts rest)

end

/-- Where statements begin. Comments do not count. -/
def beginnings (ss : List Stmt) : List Location :=
  (ss.filter (! ·.isComment)).map (·.span.start)

/-- A token takes the comments before it into the tree if it closes a block or stands where a
statement begins. -/
def takesComments (starts : List Location) (t : Token) : Bool :=
  t.kind ∈ blockEnds ∨ t.span.start ∈ starts

theorem beginnings_append (ss ss' : List Stmt) :
    beginnings (ss ++ ss') = beginnings ss ++ beginnings ss' := by
  rw [beginnings, List.filter_append, List.map_append, beginnings, beginnings]

theorem beginnings_comments (comments : List Token) :
    beginnings (comments.map Parser.commentStmt) = [] := by
  have none : (comments.map Parser.commentStmt).filter (! ·.isComment) = [] := by
    apply List.filter_eq_nil_iff.2
    intro s member
    obtain ⟨t, -, rfl⟩ := List.mem_map.1 member
    simp [Parser.commentStmt, Stmt.isComment]
  rw [beginnings, none, List.map_nil]

theorem filter_comments (comments : List Token) :
    (comments.map Parser.commentStmt).filter Stmt.isComment = comments.map Parser.commentStmt := by
  apply List.filter_eq_self.2
  intro s member
  obtain ⟨t, -, rfl⟩ := List.mem_map.1 member
  rfl

theorem allStmts_append (ss ss' : List Stmt) :
    allStmts (ss ++ ss') = allStmts ss ++ allStmts ss' := by
  induction ss with
  | nil => rw [allStmts, List.nil_append, List.nil_append]
  | cons s ss ih =>
    rw [List.cons_append, allStmts, allStmts, ih, List.cons_append, List.append_assoc]

theorem allStmts_comments (comments : List Token) :
    allStmts (comments.map Parser.commentStmt) = comments.map Parser.commentStmt := by
  induction comments with
  | nil => rw [List.map_nil, allStmts]
  | cons t comments ih =>
    rw [List.map_cons, allStmts, ih, Parser.commentStmt]
    simp only [Stmt.inner, List.nil_append]

theorem Stmt.inner_choice (span : Span) (bs : List Branch) (otherwise : Option Block) :
    (Stmt.choice span bs otherwise).inner =
      branchesInner bs ++ (otherwise.map Block.allStmts).getD [] := by
  cases otherwise with
  | none => rw [Stmt.inner, Option.map_none, Option.getD_none, List.append_nil]
  | some b => rw [Stmt.inner, Option.map_some, Option.getD_some]

theorem branchesInner_cons (b : Branch) (bs : List Branch) :
    branchesInner (b :: bs) = b.body.allStmts ++ branchesInner bs := by
  obtain ⟨span, c, body⟩ := b
  rw [branchesInner]
  rfl

/-! ## Comments that are claimed -/

/-- The place where an item begins. -/
abbrev Item.start (item : Item) : Location := item.token.span.start

/-- The statements `ss` come from the items `ts`: they begin at items there, and the comments among
them are those before these items and before the ones that close blocks. -/
structure Claims (ts : List Item) (ss : List Stmt) : Prop where
  begun : ∀ l ∈ beginnings ss, l ∈ ts.map Item.start
  comments : ss.filter Stmt.isComment =
    (ts.flatMap (Item.commentsIf (takesComments (beginnings ss)))).map Parser.commentStmt

theorem commentsIf_congr {p q : Token → Bool} {ts : List Item}
    (same : ∀ item ∈ ts, p item.token = q item.token) :
    ts.flatMap (Item.commentsIf p) = ts.flatMap (Item.commentsIf q) := by
  induction ts with
  | nil => rfl
  | cons item ts ih =>
    obtain ⟨first, others⟩ := List.forall_mem_cons.1 same
    rw [List.flatMap_cons, List.flatMap_cons, Item.commentsIf, first, ih others, Item.commentsIf]

section

variable {ts us : List Item} {ss ss' : List Stmt}

/-- Stretches that lie one behind the other claim comments apart from each other. -/
theorem Claims.append (left : Claims ts ss) (right : Claims us ss') (ordered : InOrder (ts ++ us)) :
    Claims (ts ++ us) (ss ++ ss') := by
  have apart : ∀ item ∈ ts, ∀ other ∈ us, item.start ≠ other.start := by
    intro item member other member' same
    have := ((List.pairwise_append.1 ordered).2.2 item member other member').1
    exact absurd (congrArg Location.offset same) (Nat.ne_of_lt this)
  constructor
  · intro l begun
    rw [beginnings_append, List.mem_append] at begun
    rw [List.map_append, List.mem_append]
    exact begun.imp (left.begun l) (right.begun l)
  · rw [List.filter_append, left.comments, right.comments, beginnings_append, List.flatMap_append,
      List.map_append]
    congr 2
    · apply commentsIf_congr
      intro item member
      have notRight : item.start ∉ beginnings ss' := by
        intro begun
        obtain ⟨other, member', same⟩ := List.mem_map.1 (right.begun _ begun)
        exact apart item member other member' same.symm
      simp [takesComments, notRight]
    · apply commentsIf_congr
      intro item member
      have notLeft : item.start ∉ beginnings ss := by
        intro begun
        obtain ⟨other, member', same⟩ := List.mem_map.1 (left.begun _ begun)
        exact apart other member' item member same
      simp [takesComments, notLeft]

/-- Tokens that neither begin a statement nor close a block claim nothing. -/
theorem Claims.nothing (open_ : ∀ item ∈ ts, item.kind ∉ blockEnds) : Claims ts [] := by
  refine ⟨nofun, ?_⟩
  have none : ts.flatMap (Item.commentsIf (takesComments (beginnings []))) = [] := by
    apply List.flatMap_eq_nil_iff.2
    intro item member
    have notEnd := open_ item member
    simp [Item.commentsIf, takesComments, beginnings, notEnd]
  rw [none]
  rfl

/-- Such tokens may stand in front. -/
theorem Claims.behind (open_ : ∀ item ∈ ts, item.kind ∉ blockEnds) (claims : Claims us ss)
    (ordered : InOrder (ts ++ us)) : Claims (ts ++ us) ss :=
  (Claims.nothing open_).append claims ordered

/-- A token that closes a block claims the comments before it. -/
theorem Claims.closing {closing : Item} (isEnd : closing.kind ∈ blockEnds) :
    Claims [closing] (closing.comments.map Parser.commentStmt) := by
  refine ⟨by rw [beginnings_comments]; nofun, ?_⟩
  rw [filter_comments, List.flatMap_singleton, Item.commentsIf,
    if_pos (by simp [takesComments, isEnd])]

/-- A token that begins a statement claims the comments before it. -/
theorem Claims.first {first : Item} {s : Stmt} (proper : s.isComment = false)
    (start : s.span.start = first.start) :
    Claims [first] (first.comments.map Parser.commentStmt ++ [s]) := by
  have begun : beginnings (first.comments.map Parser.commentStmt ++ [s]) = [first.start] := by
    rw [beginnings_append, beginnings_comments, List.nil_append, beginnings, ← start]
    simp [proper]
  have none : [s].filter Stmt.isComment = [] := by simp [proper]
  refine ⟨fun l member => by rwa [begun] at member, ?_⟩
  rw [begun, List.filter_append, filter_comments, none, List.append_nil, List.flatMap_singleton,
    Item.commentsIf, if_pos (by simp [takesComments])]

end

/-! ## Claims of phrases -/

/-- None of the items closes a block. -/
def ClosesNothing (ts : List Item) : Prop := ∀ item ∈ ts, item.kind ∉ blockEnds

namespace ClosesNothing

variable {item : Item} {ts us : List Item}

theorem nil : ClosesNothing [] := List.forall_mem_nil _

theorem append (left : ClosesNothing ts) (right : ClosesNothing us) : ClosesNothing (ts ++ us) :=
  List.forall_mem_append.2 ⟨left, right⟩

theorem cons (head : item.kind ∉ blockEnds) (others : ClosesNothing ts) :
    ClosesNothing (item :: ts) :=
  List.forall_mem_cons.2 ⟨head, others⟩

theorem cons_kind {kind : TokenKind} (head : item.kind = kind) (others : ClosesNothing ts)
    (open_ : kind ∉ blockEnds := by decide) : ClosesNothing (item :: ts) :=
  .cons (head ▸ open_) others

theorem snoc {kind : TokenKind} (before : ClosesNothing ts) (last : item.kind = kind)
    (open_ : kind ∉ blockEnds := by decide) : ClosesNothing (ts ++ [item]) :=
  before.append (.cons_kind last .nil open_)

theorem tail (all : ClosesNothing ts) : ClosesNothing ts.tail :=
  fun item member => all item (List.mem_of_mem_tail member)

end ClosesNothing

namespace Phrase

variable {g : Grammar}

mutual

theorem Expression.closesNothing {level : Nat} {ts : List Item} {e : Expr} :
    Expression g level ts e → ClosesNothing ts
  | @Expression.binary _ _ o _ _ _ _ _ _ signKind left right => by
    have open_ : o.kind ∉ blockEnds := by cases o <;> decide
    exact left.closesNothing.append (.cons_kind signKind right.closesNothing open_)
  | .tighter _ inner => inner.closesNothing
  | .operand inner => inner.closesNothing

theorem Operand.closesNothing {ts : List Item} {e : Expr} : Operand g ts e → ClosesNothing ts
  | @Operand.unary _ o _ _ _ signKind inner => by
    have open_ : o.kind ∉ blockEnds := by cases o <;> decide
    exact .cons_kind signKind inner.closesNothing open_
  | .literal kind => by
    have open_ : ∀ k ∈ literalKinds, k ∉ blockEnds := by decide
    exact .cons (open_ _ kind) .nil
  | .variable kind => .cons_kind kind .nil
  | .call inner => inner.closesNothing
  | .parentheses openingKind closingKind inner =>
    .cons_kind openingKind (inner.closesNothing.snoc closingKind)

theorem FunctionCall.closesNothing {ts : List Item} {c : Call} :
    FunctionCall g ts c → ClosesNothing ts
  | .bare nameKind openingKind closingKind =>
    .cons_kind nameKind (.cons_kind openingKind (.cons_kind closingKind .nil))
  | .applied nameKind openingKind closingKind inner =>
    .cons_kind nameKind (.cons_kind openingKind (inner.closesNothing.snoc closingKind))

theorem Arguments.closesNothing {ts : List Item} {es : List Expr} {ks : List KeywordArgument} :
    Arguments g ts es ks → ClosesNothing ts
  | .lastPositional argument => argument.closesNothing
  | .lastNamed argument => argument.closesNothing
  | .positional commaKind argument others =>
    argument.closesNothing.append (.cons_kind commaKind others.closesNothing)
  | .named commaKind argument others =>
    argument.closesNothing.append (.cons_kind commaKind others.closesNothing)

theorem Named.closesNothing {ts : List Item} {k : KeywordArgument} :
    Named g ts k → ClosesNothing ts
  | .mk _ nameKind signKind value =>
    .cons_kind nameKind (.cons_kind signKind value.closesNothing)

end

theorem Separator.closesNothing {ts : List Item} (separator : Separator ts) : ClosesNothing ts := by
  cases separator with
  | none => exact .nil
  | semicolon kind => exact .cons_kind kind .nil

theorem LoopStep.closesNothing {ts : List Item} {e : Option Expr} (phrase : LoopStep g ts e) :
    ClosesNothing ts := by
  cases phrase with
  | none => exact .nil
  | given kind value => exact .cons_kind kind value.closesNothing

theorem Target.closesNothing {ts : List Item} {name : String} {e : Expr}
    (phrase : Target g ts name e) : ClosesNothing ts := by
  obtain ⟨nameKind, signKind, value⟩ := phrase
  exact .cons_kind nameKind (.cons_kind signKind value.closesNothing)

/-- What follows a branch begins with a token that closes it. -/
theorem Alternatives.head_closes {items : List Item} {bs : List Branch} {otherwise : Option Block}
    {closing : Item} (phrase : Alternatives g items bs otherwise)
    (head : items.head? = some closing) : closing.kind ∈ blockEnds := by
  cases phrase with
  | done kind | otherwise kind | guarded kind =>
    cases head
    rw [kind]
    decide

mutual

/-- The comments before the first token of a statement are claimed by the block that the statement
belongs to. -/
theorem Statement.claims {ts : List Item} {s : Stmt} :
    Statement g ts s → InOrder ts → Claims ts.tail s.inner
  | .assign target, _ => .nothing target.closesNothing.tail
  | .letAssign _ target, _ => .nothing target.closesNothing
  | .setAssign _ target, _ => .nothing target.closesNothing
  | .call inner, _ => .nothing inner.closesNothing.tail
  | .ret _, _ => .nothing ClosesNothing.nil
  | @Statement.choice _ word closing ts us b bs otherwise _ first others, ordered => by
    have split : ts ++ closing :: us = (ts ++ [closing]) ++ us := by simp
    have inner : InOrder (ts ++ closing :: us) := ordered.tail
    have behind : InOrder (closing :: us) := inner.right
    rw [List.tail_cons, Stmt.inner_choice, branchesInner_cons, List.append_assoc, split]
    rw [split] at inner
    exact (first.claims inner.left (others.head_closes rfl)).append (others.claims behind) inner
  | .whileLoop _ _ test doKind inner closingKind, ordered => by
    rw [List.append_cons] at ordered ⊢
    rw [List.tail_cons, Stmt.inner]
    exact (inner.claims ordered.tail.right (by rw [closingKind]; decide)).behind
      (test.closesNothing.snoc doKind) ordered.tail
  | @Statement.forLoop _ word counter sign toWord doWord closing fs ls ss body _ _ _ _ _ _
      counterKind signKind start toKind stop increment doKind inner closingKind, ordered => by
    have split :
        counter :: sign :: (fs ++ toWord :: (ls ++ (ss ++ doWord :: (body ++ [closing])))) =
        (counter :: sign :: (fs ++ toWord :: (ls ++ (ss ++ [doWord])))) ++ (body ++ [closing]) := by
      simp
    have front : ClosesNothing (counter :: sign :: (fs ++ toWord :: (ls ++ (ss ++ [doWord])))) :=
      .cons_kind counterKind (.cons_kind signKind (start.closesNothing.append (.cons_kind toKind
        (stop.closesNothing.append (increment.closesNothing.snoc doKind)))))
    have inOrder := ordered.tail
    rw [split] at inOrder
    rw [List.tail_cons, split, Stmt.inner]
    exact (inner.claims inOrder.right (by rw [closingKind]; decide)).behind front inOrder
  | .block _ inner closingKind, ordered => by
    rw [List.tail_cons, Stmt.inner, Block.allStmts]
    exact inner.claims ordered.tail (by rw [closingKind]; decide)

theorem Statements.claims {ts : List Item} {closing : Item} {ss : List Stmt} :
    Statements g ts closing ss → InOrder (ts ++ [closing]) → closing.kind ∈ blockEnds →
      Claims (ts ++ [closing]) (allStmts ss)
  | .nil, _, isEnd => by
    rw [allStmts_comments]
    exact .closing isEnd
  | @Statements.cons _ first closing ts separator us s ss statement separated others, ordered,
      isEnd => by
    have split : first :: (ts ++ (separator ++ us)) ++ [closing] =
        [first] ++ (ts ++ (separator ++ (us ++ [closing]))) := by simp
    rw [split] at ordered ⊢
    have inStatement : InOrder (first :: ts) := by
      rw [← List.append_assoc, List.singleton_append] at ordered
      exact ordered.left
    have parts : allStmts (first.comments.map Parser.commentStmt ++ s :: ss) =
        (first.comments.map Parser.commentStmt ++ [s]) ++ (s.inner ++ allStmts ss) := by
      rw [allStmts_append, allStmts_comments, allStmts]
      simp
    have behind := others.claims ordered.right.right.right isEnd
    rw [parts]
    exact (Claims.first statement.proper statement.start_eq).append
      ((statement.claims inStatement).append
        (behind.behind separated.closesNothing ordered.right.right) ordered.right) ordered

theorem Body.claims {before : Option Token} {ts : List Item} {closing : Item} {b : Block} :
    Body g before ts closing b → InOrder (ts ++ [closing]) → closing.kind ∈ blockEnds →
      Claims (ts ++ [closing]) b.allStmts
  | .mk inner, ordered, isEnd => by
    rw [Block.allStmts]
    exact inner.claims ordered isEnd

theorem Guarded.claims {word closing : Item} {ts : List Item} {b : Branch} :
    Guarded g word ts closing b → InOrder (ts ++ [closing]) → closing.kind ∈ blockEnds →
      Claims (ts ++ [closing]) b.body.allStmts
  | @Guarded.mk _ word thenWord closing cs body _ _ test thenKind inner, ordered, isEnd => by
    have split : cs ++ thenWord :: body ++ [closing] =
        (cs ++ [thenWord]) ++ (body ++ [closing]) := by simp
    rw [split] at ordered ⊢
    exact (inner.claims ordered.right isEnd).behind (test.closesNothing.snoc thenKind) ordered

/-- The comments before the first item are claimed by the branch that it closes. -/
theorem Alternatives.claims {items : List Item} {bs : List Branch} {otherwise : Option Block} :
    Alternatives g items bs otherwise → InOrder items →
      Claims items.tail (branchesInner bs ++ (otherwise.map Block.allStmts).getD [])
  | .done _, _ => by
    rw [branchesInner]
    exact .nothing ClosesNothing.nil
  | .otherwise _ inner closingKind, ordered => by
    rw [branchesInner, List.nil_append, List.tail_cons, Option.map_some, Option.getD_some,
      Block.allStmts]
    exact inner.claims ordered.tail (by rw [closingKind]; decide)
  | @Alternatives.guarded _ word closing ts us b bs otherwise _ first others, ordered => by
    have split : ts ++ closing :: us = (ts ++ [closing]) ++ us := by simp
    have inner : InOrder (ts ++ closing :: us) := ordered.tail
    have behind : InOrder (closing :: us) := inner.right
    rw [List.tail_cons, branchesInner_cons, List.append_assoc, split]
    rw [split] at inner
    exact (first.claims inner.left (others.head_closes rfl)).append (others.claims behind) inner

end

end Phrase

/-! ## Texts -/

section

variable {g : Grammar} {text : List Char} {stream : TokenStream}

/-- Only the end of a text takes up no room. -/
theorem TokenStream.Tiles.room (tiles : stream.Tiles g text {}) {t : Token}
    (member : t ∈ stream.tokens) (notEnd : t.kind ≠ .endOfInput) :
    t.span.start.offset < t.span.stop.offset := by
  obtain ⟨written, nonempty⟩ := tiles.written t member
  by_contra short
  have empty : charsBetween text t.span.start t.span.stop = [] := by
    rw [charsBetween, show t.span.stop.offset - t.span.start.offset = 0 by omega, List.take_zero]
  exact nonempty notEnd (String.toList_inj.1 (written.trans empty))

/-- Only a text that is used up has an end. -/
theorem TokenStream.Tiles.finished_of_end (tiles : stream.Tiles g text {}) {t : Token}
    (member : t ∈ stream.tokens) (isEnd : t.kind = .endOfInput) : stream.ending = .finished := by
  cases ending : stream.ending with
  | finished => rfl
  | failed error stop => exact absurd isEnd ((tiles.failed error stop ending).1 t member)

/-- The items of a text follow one another. -/
theorem TokenStream.Tiles.inOrder (tiles : stream.Tiles g text {}) :
    InOrder (groupComments [] stream.tokens) := by
  have follow : stream.tokens.Pairwise fun t u => t.span.start.offset < u.span.start.offset ∧
      (u.kind ≠ .endOfInput → t.span.stop.offset < u.span.stop.offset) := by
    apply tiles.ordered.imp_of_mem
    rintro t u - member ⟨starts, stops⟩
    exact ⟨starts, fun notEnd => Nat.lt_of_le_of_lt stops (tiles.room member notEnd)⟩
  have kept := follow.filter (·.kind ≠ .comment)
  rw [← groupComments_tokens [], List.pairwise_map] at kept
  exact kept

/-- A text that has been read to its end has one end. -/
theorem TokenStream.Tiles.endsOnce (tiles : stream.Tiles g text {})
    (finished : stream.ending = .finished) : EndsOnce (groupComments [] stream.tokens) := by
  obtain ⟨body, last, eq, notEnds, isEnd, -⟩ := tiles.finished finished
  have kept : [last].filter (·.kind ≠ .comment) = [last] := by simp [isEnd]
  have tokens := groupComments_tokens [] stream.tokens
  generalize groupComments [] stream.tokens = items at tokens
  rw [eq, List.filter_append, kept] at tokens
  obtain ⟨front, behind, rfl, frontTokens, behindTokens⟩ := List.map_eq_append_iff.1 tokens
  obtain ⟨item, rfl, rfl⟩ := List.map_eq_singleton_iff.1 behindTokens
  refine ⟨front, item, rfl, fun other member => ?_, isEnd⟩
  have inFront := List.mem_map_of_mem (f := Item.token) member
  rw [frontTokens] at inFront
  exact notEnds other.token (List.mem_of_mem_filter inFront)

/-- The comments of a text are what stands between their marks. -/
theorem TokenStream.Tiles.commentStmtsAhead_eq (tiles : stream.Tiles g text {})
    (p : Token → Bool) : commentStmtsAhead text stream.tokens p =
      ((groupComments [] stream.tokens).flatMap (Item.commentsIf p)).map Parser.commentStmt := by
  rw [commentStmtsAhead, commentsAhead_eq]
  apply List.map_congr_left
  intro t member
  obtain ⟨item, inside, claimed⟩ := List.mem_flatMap.1 member
  have comment : t ∈ item.comments := by
    rw [Item.commentsIf] at claimed
    split at claimed
    · exact claimed
    · exact absurd claimed List.not_mem_nil
  obtain ⟨isComment, source⟩ := (mem_groupComments (List.forall_mem_nil _) item inside).2 t comment
  have inText := source.resolve_left List.not_mem_nil
  rw [commentOf, ← (tiles.written t inText).1, Parser.commentStmt, Token.name,
    (tiles.comments t inText isComment).stripped]

theorem TokenStream.Tiles.located (tiles : stream.Tiles g text {}) :
    Located (commentStmtsAhead text stream.tokens) (groupComments [] stream.tokens) := by
  constructor
  · intro item member span start
    rw [tiles.commentStmtsAhead_eq]
    congr 1
    refine tiles.inOrder.commentsIf member (by simp [begins, start]) fun other member' begun => ?_
    rw [begins, decide_eq_true_eq, start] at begun
    exact tiles.inOrder.eq_of_start member' member begun
  · intro item member notEnd span stop
    rw [tiles.commentStmtsAhead_eq]
    congr 1
    have notEnd' : item.token.kind ≠ .endOfInput := notEnd
    have holds : ends span item.token = true := by simp [ends, stop, notEnd']
    refine tiles.inOrder.commentsIf member holds fun other member' ended => ?_
    rw [ends, decide_eq_true_eq, stop] at ended
    exact tiles.inOrder.eq_of_stop member' member ended.1 notEnd ended.2

end

/-- The end of the input is the last item. -/
theorem EndsOnce.eq_last {body : List Item} {closing other : Item}
    (ends : EndsOnce (body ++ [closing])) (member : other ∈ body ++ [closing])
    (isEnd : other.kind = .endOfInput) : other = closing := by
  rcases List.mem_append.1 member with inBody | isLast
  · obtain ⟨front, back, rfl⟩ := List.append_of_mem inBody
    rw [List.append_assoc, List.cons_append] at ends
    have none : back ++ [closing] = [] := ends.eq_nil rfl isEnd
    simp at none
  · exact List.mem_singleton.1 isLast

/-- A text from which a tree is read has one end, and the grammar derives the tree from it. -/
theorem Block.script_of_source {g : Grammar} {source : Source} {b : Block} (words : g.WordsOnly)
    (parsed : Block.ofSource g source = .ok b) :
    EndsOnce (groupComments [] (TokenStream.ofSource g source).tokens) ∧
      Phrase.Script g (groupComments [] (TokenStream.ofSource g source).tokens) b := by
  have tiles := (TokenStream.ofSource_laid words source).tiles_text
  have ended : ∃ t ∈ (TokenStream.ofSource g source).tokens, t.kind = .endOfInput := by
    unfold Block.ofSource Block.ofStream at parsed
    dsimp only at parsed
    split at parsed
    · rename_i b' c' ran
      obtain ⟨body, closing, others, split, isEnd, -⟩ := script_sound ran
      have member : closing ∈ groupComments [] (TokenStream.ofSource g source).tokens := by
        rw [split]
        exact List.mem_append_right _ List.mem_cons_self
      exact ⟨_, (mem_groupComments (List.forall_mem_nil _) closing member).1, isEnd⟩
    · cases parsed
    · split at parsed <;> cases parsed
    · cases parsed
  obtain ⟨t, member, isEnd⟩ := ended
  have once := tiles.endsOnce (tiles.finished_of_end member isEnd)
  exact ⟨once, (Block.ofStream_eq_ok once).1 parsed⟩

/-- Keeping the comments of a text only adds comments to its tree, if there is one at all. They are
all those before a statement or the end of a block, and they are put there. -/
theorem comments_only_added (g : Grammar) (words : g.WordsOnly) (dropped : g.retainComments = false)
    (source : Source) :
    Block.ofSource g source = (Block.ofSource g.withComments source).map Block.uncommented ∧
      (∀ d : Definition, d.grammar = g → (d.parse source true).isOk = (d.parse source false).isOk) ∧
      ∀ kept, Block.ofSource g.withComments source = .ok kept →
        let tokens := (TokenStream.ofSource g.withComments source).tokens
        kept.allStmts.filter Stmt.isComment =
            commentStmtsAhead source.text tokens (takesComments (beginnings kept.allStmts)) ∧
          kept = kept.uncommented.commented (commentStmtsAhead source.text tokens)
            (·.kind = .endOfInput) := by
  have shed := Block.ofSource_uncommented dropped source
  refine ⟨shed, ?_, ?_⟩
  · rintro d rfl
    rw [Definition.parse, Definition.parse, if_pos rfl, if_neg Bool.false_ne_true, shed]
    cases Block.ofSource d.grammar.withComments source <;> rfl
  · intro kept parsed
    dsimp only
    have words' : g.withComments.WordsOnly := words
    have tiles := (TokenStream.ofSource_laid words' source).tiles_text
    obtain ⟨once, phrase⟩ := Block.script_of_source words' parsed
    have ordered := tiles.inOrder
    have located := tiles.located
    have lookup := tiles.commentStmtsAhead_eq
    generalize groupComments [] (TokenStream.ofSource g.withComments source).tokens = items
      at once phrase ordered located lookup
    obtain ⟨inner, isEnd⟩ := phrase
    have closes := lookup (·.kind = .endOfInput)
    rw [ordered.commentsIf (List.mem_append_right _ (List.mem_singleton_self _))
      (decide_eq_true isEnd) fun other member otherEnds =>
        once.eq_last member (of_decide_eq_true otherEnds)] at closes
    constructor
    · rw [lookup]
      exact (inner.claims ordered (by rw [isEnd]; decide)).comments
    · have inside := located.mono fun item member => List.mem_append_left _ member
      exact (inner.commented inside closes).symm

/-- Comments in a statement, before a statement, and before words that close blocks. -/
def commentedChoice : List Char :=
  "x = 1 /* lost */ + 2 # a\nif x == 3 then # b\nelse x = 4 # c\nendif # d".toList

/-- The comment in the expression is lost; each of the others goes to a place of its own. -/
theorem commentedChoice_kept : Grammar.second.WordsOnly ∧ Grammar.second.retainComments = false ∧
    ∃ kept, Block.ofSource Grammar.second.withComments ⟨commentedChoice, none⟩ = .ok kept ∧
      (kept.allStmts.filter Stmt.isComment).length = 4 ∧
      Block.ofSource Grammar.second ⟨commentedChoice, none⟩ = .ok kept.uncommented ∧
      kept.allStmts.filter Stmt.isComment = commentStmtsAhead commentedChoice
        (TokenStream.ofSource Grammar.second.withComments ⟨commentedChoice, none⟩).tokens
        (takesComments (beginnings kept.allStmts)) := by
  have words : Grammar.second.WordsOnly := Grammar.Standard.wordsOnly (.inr rfl)
  obtain ⟨shed, -, places⟩ :=
    comments_only_added Grammar.second words rfl ⟨commentedChoice, none⟩
  have counted : ((Block.ofSource Grammar.second.withComments ⟨commentedChoice, none⟩).map
      fun kept => (kept.allStmts.filter Stmt.isComment).length).toOption = some 4 := by
    decide +kernel
  cases parsed : Block.ofSource Grammar.second.withComments ⟨commentedChoice, none⟩ with
  | error e =>
    rw [parsed] at counted
    cases counted
  | ok kept =>
    rw [parsed] at counted shed
    exact ⟨words, rfl, kept, rfl, Option.some.inj counted, shed, (places kept parsed).1⟩

end InstallScript
