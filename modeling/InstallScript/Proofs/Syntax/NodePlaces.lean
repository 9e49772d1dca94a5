import InstallScript.Proofs.Syntax.Breaks
import InstallScript.Proofs.Syntax.Kinship
import InstallScript.Tree.Parse

/-!
Where the tokens of a text, the nodes of its tree and what is wrong with it begin: at places of the
text. So the lines that are shown for errors of the text are the right ones
(`Block.shows_of_ofSource`), and those for the nodes of a tree may be looked up by their stretches
(`Block.placed_of_ofSource`).

Places come into a tree from its tokens only. `Yields P Q p` says so of a parser: on tokens that
begin at places of a sort `P`, it gives what satisfies `Q`, leaves such tokens to read, and objects
to such places only.
-/

namespace InstallScript

open InstallScript.Parser

/-! ## Tokens -/

/-- Tokens that begin at places of a text, with an end that shows its line. -/
structure TokenStream.Placed (source : Source) (s : TokenStream) : Prop where
  tokens : ∀ t ∈ s.tokens, t.span.start.Counts source.text
  error : ∀ error stop, s.ending = .failed error stop → source.Shows error.diagnostic

namespace TokenStream

theorem placed_endToken {source : Source} {file : Option String} {place : Location}
    (counts : place.Counts source.text) :
    Placed source ⟨[endToken file place], .finished⟩ where
  tokens _ member := by
    rw [List.mem_singleton.1 member]
    exact counts
  error _ _ ending := by cases ending

theorem tokensFrom_placed {source : Source} (g : Grammar) (file : Option String) :
    ∀ (steps : Nat) {before cs : List Char}, source.text = before ++ cs →
      (tokensFrom g file source.lines steps (({} : Location).after before) cs).Placed source
  | 0, before, cs, text => placed_endToken (text ▸ Location.counts_after before cs)
  | steps + 1, before, cs, text => by
    -- the gap counts as read, so the next token begins behind all that has been read
    have split : source.text = (before ++ cs.takeWhile isGap) ++ cs.dropWhile isGap := by
      rw [text, List.append_assoc, List.takeWhile_append_dropWhile]
    unfold tokensFrom
    dsimp only
    rw [← Location.after_append]
    generalize before ++ cs.takeWhile isGap = front at split
    split
    · rename_i done
      rw [done] at split
      exact placed_endToken (split ▸ Location.counts_after front [])
    · rename_i c rest head
      rw [head] at split
      have at' (n : Nat) : source.text = (front ++ (c :: rest).take n) ++ (c :: rest).drop n := by
        rw [split, List.append_assoc, List.take_append_drop]
      split
      · rename_i fault lead length _
        refine ⟨List.forall_mem_nil _, ?_⟩
        rintro _ _ ⟨⟩
        refine Source.shows_withLine fault ?_
        rw [← Location.after_append, at' lead]
        exact Location.counts_after _ _
      · rename_i kind value length _
        have others := tokensFrom_placed g file steps (at' length)
        rw [Location.after_append] at others
        split
        · exact others
        · refine ⟨List.forall_mem_cons.2 ⟨?_, others.tokens⟩, others.error⟩
          rw [split]
          exact Location.counts_after front _

theorem ofSource_placed (g : Grammar) (source : Source) : (ofSource g source).Placed source :=
  tokensFrom_placed g source.file (source.text.length + 1) (List.nil_append _).symm

end TokenStream

/-! ## Nodes -/

/-- The stretch of a node. -/
def Node.span : Node → Span
  | .expr e => e.span
  | .keyword k => k.span
  | .stmt s => s.span
  | .branch b => b.span
  | .block b => b.span

/-- A node that begins at a place of some sort. If it is a call then so do its arguments. -/
structure Node.Begins (P : Location → Prop) (node : Node) : Prop where
  start : P node.span.start
  arguments : ∀ c, node = .expr (.call c) →
    ∀ e ∈ c.arguments ++ c.keywords.map (·.value), P e.span.start

/-- Nodes that begin at places of some sort. -/
def Begin (P : Location → Prop) (nodes : List Node) : Prop := ∀ node ∈ nodes, node.Begins P

section

variable {P : Location → Prop}

theorem Begin.nil : Begin P [] := List.forall_mem_nil _

theorem Begin.cons {node : Node} {nodes : List Node} (first : P node.span.start)
    (others : Begin P nodes) (noCall : ∀ c, node ≠ .expr (.call c) := by nofun) :
    Begin P (node :: nodes) :=
  List.forall_mem_cons.2 ⟨⟨first, fun c eq => absurd eq (noCall c)⟩, others⟩

theorem Begin.append {nodes nodes' : List Node} (left : Begin P nodes) (right : Begin P nodes') :
    Begin P (nodes ++ nodes') :=
  List.forall_mem_append.2 ⟨left, right⟩

theorem walkExprs_append (es es' : List Expr) :
    walkExprs (es ++ es') = walkExprs es ++ walkExprs es' := by
  induction es with
  | nil => rfl
  | cons e es ih => rw [List.cons_append, walkExprs, walkExprs, ih, List.append_assoc]

theorem walkKeywords_append (ks ks' : List KeywordArgument) :
    walkKeywords (ks ++ ks') = walkKeywords ks ++ walkKeywords ks' := by
  induction ks with
  | nil => rfl
  | cons k ks ih =>
    obtain ⟨span, name, e⟩ := k
    rw [List.cons_append, walkKeywords, walkKeywords, ih, List.cons_append, List.append_assoc]

theorem walkStmts_append (ss ss' : List Stmt) :
    walkStmts (ss ++ ss') = walkStmts ss ++ walkStmts ss' := by
  induction ss with
  | nil => rfl
  | cons s ss ih => rw [List.cons_append, walkStmts, walkStmts, ih, List.append_assoc]

theorem walkBranches_cons (b : Branch) (bs : List Branch) :
    walkBranches (b :: bs) = walkBranches [b] ++ walkBranches bs := by
  obtain ⟨span, condition, body⟩ := b
  rw [walkBranches, walkBranches, walkBranches, List.append_nil, List.cons_append]

/-- An expression is the first of its nodes. -/
theorem Begin.start {e : Expr} (nodes : Begin P e.walk) : P e.span.start := by
  cases e with
  | _ => exact (nodes _ List.mem_cons_self).start

theorem Begin.starts {es : List Expr} (nodes : Begin P (walkExprs es)) :
    ∀ e ∈ es, P e.span.start := by
  induction es with
  | nil => exact List.forall_mem_nil _
  | cons e es ih =>
    obtain ⟨first, others⟩ := List.forall_mem_append.1 nodes
    exact List.forall_mem_cons.2 ⟨Begin.start first, ih others⟩

theorem Begin.call {span : Span} {name : String} {es : List Expr} {ks : List KeywordArgument}
    (place : P span.start) (positional : Begin P (walkExprs es))
    (keywords : Begin P (walkKeywords ks)) : Begin P (Expr.call (.mk span name es ks)).walk := by
  refine List.forall_mem_cons.2 ⟨⟨place, ?_⟩, positional.append keywords⟩
  rintro _ ⟨⟩
  have values : Begin P (walkExprs (ks.map (·.value))) :=
    fun node member => keywords node (mem_walkKeywords member)
  exact List.forall_mem_append.2 ⟨positional.starts, values.starts⟩

theorem Begin.statements {b : Block} (nodes : Begin P b.walk) :
    Begin P (walkStmts b.statements) := by
  obtain ⟨span, ss⟩ := b
  exact (List.forall_mem_cons.1 nodes).2

theorem Begin.choice {span : Span} {bs : List Branch} {otherwise : Option Block}
    (place : P span.start) (branches : Begin P (walkBranches bs))
    (last : ∀ b ∈ otherwise, Begin P b.walk) :
    Begin P (Stmt.choice span bs otherwise).walk := by
  cases otherwise with
  | none => exact .cons place branches
  | some b => exact .cons place (branches.append (last b rfl))

theorem Begin.forLoop {span : Span} {counter : String} {first last : Expr} {step : Option Expr}
    {body : Block} (place : P span.start) (start : Begin P first.walk) (stop : Begin P last.walk)
    (increment : ∀ e ∈ step, Begin P e.walk) (round : Begin P body.walk) :
    Begin P (Stmt.forLoop span counter first last step body).walk := by
  have bounds := (start.append stop).append round
  cases step with
  | none => exact .cons place bounds
  | some e => exact .cons place (bounds.append (increment e rfl))

/-- Comments begin where their tokens do. -/
theorem begin_comments {comments : List Token} (placed : ∀ t ∈ comments, P t.span.start) :
    Begin P (walkStmts (comments.map commentStmt)) := by
  induction comments with
  | nil => exact .nil
  | cons t comments ih =>
    obtain ⟨first, others⟩ := List.forall_mem_cons.1 placed
    exact .cons first (ih others)

end

/-! ## Parsers -/

/-- The tokens ahead begin at places of some sort, and so do the comments before them. -/
def Cursor.Ahead (P : Location → Prop) (c : Cursor) : Prop :=
  ∀ item ∈ c.rest, P item.token.span.start ∧ ∀ t ∈ item.comments, P t.span.start

/-- A parser that takes places from its tokens. -/
structure Yields {α : Type} (P : Location → Prop) (Q : α → Prop) (p : Parser α) : Prop where
  result : ∀ {c c' : Cursor} {a : α}, c.Ahead P → p c = .ok (a, c') → Q a ∧ c'.Ahead P
  fault : ∀ {c : Cursor} {fault : Fault} {span : Span}, c.Ahead P →
    p c = .error (.fault fault span) → P span.start

namespace Yields

variable {α β : Type} {P : Location → Prop} {Q : α → Prop} {R : β → Prop}

/-- A parser that reads nothing: at most it looks at what is ahead. -/
theorem look {p : Parser α} (looks : ∀ c : Cursor, p c = .error .noToken ∨
    ∃ a, p c = .ok (a, c) ∧ (c.Ahead P → Q a)) : Yields P Q p where
  result {c} _ _ ahead ran := by
    rcases looks c with stops | ⟨a, gives, holds⟩
    · cases stops.symm.trans ran
    · cases gives.symm.trans ran
      exact ⟨holds ahead, ahead⟩
  fault {c} _ _ _ ran := by
    rcases looks c with stops | ⟨a, gives, -⟩
    · cases stops.symm.trans ran
    · cases gives.symm.trans ran

theorem pure {a : α} (holds : Q a) : Yields P Q (Pure.pure a : Parser α) :=
  look fun _ => .inr ⟨a, rfl, fun _ => holds⟩

theorem fail {fault : Fault} {span : Span} (place : P span.start) :
    Yields P Q (Parser.halt (.fault fault span) : Parser α) where
  result _ ran := by cases ran
  fault _ ran := by
    cases ran
    exact place

theorem tooDeep : Yields P Q (Parser.halt .tooDeep : Parser α) where
  result _ ran := by cases ran
  fault _ ran := by cases ran

theorem bind {p : Parser α} {k : α → Parser β} (first : Yields P Q p)
    (second : ∀ a, Q a → Yields P R (k a)) : Yields P R (p >>= k) where
  result {c} _ _ ahead ran := by
    rw [bind_apply] at ran
    split at ran
    · rename_i a c' ran'
      obtain ⟨holds, ahead'⟩ := first.result ahead ran'
      exact (second a holds).result ahead' ran
    · cases ran
  fault {c} _ _ ahead ran := by
    rw [bind_apply] at ran
    split at ran
    · rename_i a c' ran'
      obtain ⟨holds, ahead'⟩ := first.result ahead ran'
      exact (second a holds).fault ahead' ran
    · rename_i halt ran'
      cases ran
      exact first.fault ahead ran'

theorem ite {C : Prop} [Decidable C] {p q : Parser α} (left : Yields P Q p)
    (right : Yields P Q q) : Yields P Q (if C then p else q) := by
  split
  · exact left
  · exact right

theorem peek : Yields P (fun t : Token => P t.span.start) Parser.peek := by
  refine look fun c => ?_
  obtain ⟨rest, previous⟩ := c
  cases rest with
  | nil => exact .inl rfl
  | cons item rest => exact .inr ⟨_, rfl, fun ahead => (ahead item List.mem_cons_self).1⟩

theorem peekComments :
    Yields P (fun comments : List Token => ∀ t ∈ comments, P t.span.start) Parser.peekComments := by
  refine look fun c => ?_
  obtain ⟨rest, previous⟩ := c
  cases rest with
  | nil => exact .inl rfl
  | cons item rest => exact .inr ⟨_, rfl, fun ahead => (ahead item List.mem_cons_self).2⟩

theorem peekSecond : Yields P (fun _ => True) Parser.peekSecond := by
  refine look fun c => ?_
  obtain ⟨rest, previous⟩ := c
  match rest with
  | [] | [_] => exact .inl rfl
  | _ :: _ :: _ => exact .inr ⟨_, rfl, fun _ => trivial⟩

theorem advance : Yields P (fun t : Token => P t.span.start) Parser.advance where
  result {c} _ _ ahead ran := by
    obtain ⟨rest, previous⟩ := c
    cases rest with
    | nil => cases ran
    | cons item rest =>
      cases ran
      refine ⟨(ahead item List.mem_cons_self).1, ?_⟩
      unfold Cursor.Ahead
      dsimp only
      split
      · exact ahead
      · exact (List.forall_mem_cons.1 ahead).2
  fault {c} _ _ _ ran := by
    obtain ⟨rest, previous⟩ := c
    cases rest <;> cases ran

theorem spanFrom {start : Token} (place : P start.span.start) :
    Yields P (fun span : Span => P span.start) (Parser.spanFrom start) :=
  look fun _ => .inr ⟨_, rfl, fun _ => place⟩

theorem unexpected {expected : String} : Yields P Q (Parser.unexpected expected : Parser α) :=
  peek.bind fun _ place => .ite (.fail place) (.fail place)

theorem expect {kind : TokenKind} {expected : String} :
    Yields P (fun t : Token => P t.span.start) (Parser.expect kind expected) :=
  peek.bind fun _ _ => .ite advance unexpected

theorem skipSemicolon : Yields P (fun _ => True) Parser.skipSemicolon :=
  peek.bind fun _ _ => .ite (advance.bind fun _ _ => .pure trivial) (.pure trivial)

theorem closing {start : Token} {kind : TokenKind} {expected : String}
    (place : P start.span.start) :
    Yields P (fun span : Span => P span.start) (Parser.closing start kind expected) :=
  expect.bind fun _ _ => spanFrom place

end Yields

/-! ## Expressions -/

section

variable {P : Location → Prop} (g : Grammar)

/-- Arguments whose nodes begin at places of some sort. -/
def ArgumentsBegin (P : Location → Prop) (given : List Expr × List KeywordArgument) : Prop :=
  Begin P (walkExprs given.1) ∧ Begin P (walkKeywords given.2)

mutual

theorem expression_yields : ∀ n least,
    Yields P (fun e : Expr => Begin P e.walk) (expression g n least)
  | 0, _ => .tooDeep
  | n + 1, least => (operand_yields n).bind fun _ left => operators_yields n least left

theorem operators_yields : ∀ n least {left : Expr}, Begin P left.walk →
    Yields P (fun e : Expr => Begin P e.walk) (operators g n least left)
  | 0, _, _, _ => .tooDeep
  | n + 1, least, left, begins => by
    rw [operators]
    refine Yields.peek.bind fun t _ => ?_
    split
    · exact .pure begins
    · refine .ite (.pure begins) ?_
      refine Yields.advance.bind fun _ _ => (expression_yields n _).bind fun right begins' => ?_
      exact operators_yields n least (.cons begins.start (begins.append begins'))

theorem operand_yields : ∀ n, Yields P (fun e : Expr => Begin P e.walk) (operand g n)
  | 0 => .tooDeep
  | n + 1 => by
    rw [operand]
    refine Yields.peek.bind fun t place => ?_
    split
    · exact primary_yields n
    · refine Yields.advance.bind fun _ _ => (operand_yields n).bind fun inner begins => ?_
      exact .pure (.cons place begins)

theorem primary_yields : ∀ n, Yields P (fun e : Expr => Begin P e.walk) (primary g n)
  | 0 => .tooDeep
  | n + 1 => by
    rw [primary]
    refine Yields.peek.bind fun t place => ?_
    have literal : Yields P (fun e : Expr => Begin P e.walk)
        (Parser.advance >>= fun _ => Pure.pure (Expr.literal t.span (literalOf t))) :=
      Yields.advance.bind fun _ _ => .pure (.cons place .nil)
    split
    · exact literal
    · exact literal
    · exact literal
    · refine Yields.peekSecond.bind fun second _ => .ite ?_ ?_
      · exact (call_yields n).bind fun c begins => .pure begins
      · exact Yields.advance.bind fun _ _ => .pure (.cons place .nil)
    · refine Yields.advance.bind fun _ _ => (expression_yields n 1).bind fun inner begins => ?_
      exact Yields.expect.bind fun _ _ => .pure begins
    · exact .fail place
    · exact .fail place

theorem call_yields : ∀ n, Yields P (fun c : Call => Begin P (Expr.call c).walk) (call g n)
  | 0 => .tooDeep
  | n + 1 => by
    rw [call]
    refine Yields.expect.bind fun name place => Yields.expect.bind fun _ _ => ?_
    have closes {given : List Expr × List KeywordArgument} (begins : ArgumentsBegin P given) :
        Yields P (fun c : Call => Begin P (Expr.call c).walk)
          (Parser.expect .rightParen "',' or ')'" >>= fun _ => Parser.spanFrom name >>= fun span =>
            Pure.pure (Call.mk span name.name given.1 given.2)) :=
      Yields.expect.bind fun _ _ => (Yields.spanFrom place).bind fun span place' =>
        .pure (.call place' begins.1 begins.2)
    refine Yields.peek.bind fun t _ => .ite ?_ ?_
    · exact @closes ([], []) ⟨.nil, .nil⟩
    · exact (arguments_yields n ⟨.nil, .nil⟩).bind fun given begins => closes begins

theorem arguments_yields : ∀ n {function : Token} {positional : List Expr}
    {keywords : List KeywordArgument}, ArgumentsBegin P (positional, keywords) →
    Yields P (ArgumentsBegin P) (arguments g n function positional keywords)
  | 0, _, _, _, _ => .tooDeep
  | n + 1, function, positional, keywords, begins => by
    rw [arguments]
    refine (argument_yields n begins).bind fun given begins' => ?_
    refine Yields.peek.bind fun t _ => .ite ?_ (.pure begins')
    exact Yields.advance.bind fun _ _ => arguments_yields n begins'

theorem argument_yields : ∀ n {function : Token} {positional : List Expr}
    {keywords : List KeywordArgument}, ArgumentsBegin P (positional, keywords) →
    Yields P (ArgumentsBegin P) (argument g n function positional keywords)
  | 0, _, _, _, _ => .tooDeep
  | n + 1, function, positional, keywords, begins => by
    rw [argument]
    have value : Yields P (ArgumentsBegin P)
        (expression g n 1 >>= fun value => Pure.pure (positional ++ [value], keywords)) := by
      refine (expression_yields n 1).bind fun value begins' => .pure ⟨?_, begins.2⟩
      rw [walkExprs_append]
      exact begins.1.append (begins'.append .nil)
    refine Yields.peek.bind fun start place => .ite ?_ ?_
    · refine Yields.peekSecond.bind fun second _ => ?_
      refine .ite (.fail place) (.ite ?_ (.ite value (.fail place)))
      refine Yields.advance.bind fun _ _ => Yields.advance.bind fun _ _ => ?_
      refine (expression_yields n 1).bind fun value begins' => ?_
      refine (Yields.spanFrom place).bind fun span place' => .pure ⟨begins.1, ?_⟩
      rw [walkKeywords_append]
      exact begins.2.append (.cons place' (begins'.append .nil))
    · dsimp only [Bool.false_and]
      exact .ite value (.fail place)

end

/-! ## Statements -/

theorem assignment_yields (n : Nat) {start : Token} (place : P start.span.start)
    {mode : AssignMode} :
    Yields P (fun s : Stmt => Begin P s.walk) (assignment g n start mode) := by
  refine Yields.expect.bind fun name _ => Yields.expect.bind fun _ _ => ?_
  refine (expression_yields g n 1).bind fun value begins => ?_
  exact (Yields.spanFrom place).bind fun span place' => .pure (.cons place' begins)

theorem loopStep_yields (n : Nat) :
    Yields P (fun step : Option Expr => ∀ e ∈ step, Begin P e.walk) (loopStep g n) := by
  refine Yields.peek.bind fun t _ => .ite ?_ (.pure nofun)
  refine Yields.advance.bind fun _ _ => (expression_yields g n 1).bind fun step begins => .pure ?_
  rintro _ ⟨⟩
  exact begins

mutual

theorem statements_yields : ∀ n ends,
    Yields P (fun ss : List Stmt => Begin P (walkStmts ss)) (statements g n ends)
  | 0, _ => .tooDeep
  | n + 1, ends => by
    rw [statements]
    refine Yields.peekComments.bind fun comments places => ?_
    have noted := begin_comments places
    refine Yields.peek.bind fun t _ => .ite (.pure noted) (.ite .unexpected ?_)
    refine (statement_yields n).bind fun first begins => Yields.skipSemicolon.bind fun _ _ => ?_
    refine (statements_yields n ends).bind fun rest begins' => .pure ?_
    rw [walkStmts_append]
    exact noted.append (begins.append begins')

theorem block_yields : ∀ n ends, Yields P (fun b : Block => Begin P b.walk) (block g n ends)
  | 0, _ => .tooDeep
  | n + 1, ends => by
    rw [block]
    refine Yields.peek.bind fun start place => (statements_yields n ends).bind fun body begins => ?_
    exact (Yields.spanFrom place).bind fun span place' => .pure (.cons place' begins)

theorem branch_yields : ∀ n {start : Token}, P start.span.start →
    Yields P (fun b : Branch => Begin P (walkBranches [b])) (branch g n start)
  | 0, _, _ => .tooDeep
  | n + 1, start, place => by
    rw [branch]
    refine (expression_yields g n 1).bind fun condition begins => ?_
    refine Yields.expect.bind fun _ _ => (block_yields n _).bind fun body begins' => ?_
    refine (Yields.spanFrom place).bind fun span place' => .pure ?_
    exact .cons place' ((begins.append begins').append .nil)

theorem furtherBranches_yields : ∀ n,
    Yields P (fun bs : List Branch => Begin P (walkBranches bs)) (furtherBranches g n)
  | 0 => .tooDeep
  | n + 1 => by
    rw [furtherBranches]
    refine Yields.peek.bind fun t _ => .ite ?_ (.pure .nil)
    refine Yields.advance.bind fun start place => (branch_yields n place).bind fun b begins => ?_
    refine (furtherBranches_yields n).bind fun rest begins' => .pure ?_
    rw [walkBranches_cons]
    exact begins.append begins'

theorem otherwise_yields : ∀ n,
    Yields P (fun last : Option Block => ∀ b ∈ last, Begin P b.walk) (otherwise g n)
  | 0 => .tooDeep
  | n + 1 => by
    rw [otherwise]
    refine Yields.peek.bind fun t _ => .ite ?_ (.pure nofun)
    refine Yields.advance.bind fun start place => (block_yields n _).bind fun body begins => ?_
    refine (Yields.spanFrom place).bind fun span place' => .pure ?_
    rintro _ ⟨⟩
    exact .cons place' begins.statements

theorem statement_yields : ∀ n, Yields P (fun s : Stmt => Begin P s.walk) (statement g n)
  | 0 => .tooDeep
  | n + 1 => by
    rw [statement]
    refine Yields.peek.bind fun t place => ?_
    split
    · refine Yields.advance.bind fun _ _ => (branch_yields n place).bind fun first begins => ?_
      refine (furtherBranches_yields n).bind fun rest begins' => ?_
      refine (otherwise_yields n).bind fun last begins'' => ?_
      refine (Yields.closing place).bind fun span place' => .pure (.choice place' ?_ begins'')
      rw [walkBranches_cons]
      exact begins.append begins'
    · refine Yields.advance.bind fun _ _ => .ite (.fail place) ?_
      refine (expression_yields g n 1).bind fun condition begins => ?_
      refine Yields.expect.bind fun _ _ => (block_yields n _).bind fun body begins' => ?_
      refine (Yields.closing place).bind fun span place' => .pure ?_
      exact .cons place' (begins.append begins')
    · refine Yields.advance.bind fun _ _ => .ite (.fail place) ?_
      refine Yields.expect.bind fun counter _ => Yields.expect.bind fun _ _ => ?_
      refine (expression_yields g n 1).bind fun first start => Yields.expect.bind fun _ _ => ?_
      refine (expression_yields g n 1).bind fun last stop => ?_
      refine (loopStep_yields g n).bind fun step increment => Yields.expect.bind fun _ _ => ?_
      refine (block_yields n _).bind fun body round => ?_
      refine (Yields.closing place).bind fun span place' => .pure ?_
      exact .forLoop place' start stop increment round
    · refine Yields.advance.bind fun _ _ => (block_yields n _).bind fun body begins => ?_
      refine (Yields.closing place).bind fun span place' => .pure ?_
      exact .cons place' begins.statements
    · exact Yields.advance.bind fun _ _ => assignment_yields g n place
    · exact Yields.advance.bind fun _ _ => assignment_yields g n place
    · exact Yields.advance.bind fun _ _ => .pure (.cons place .nil)
    · refine Yields.peekSecond.bind fun second _ => .ite (assignment_yields g n place) (.ite ?_ ?_)
      · refine (call_yields g n).bind fun c begins => .pure (.cons ?_ begins)
        exact begins.start (e := .call c)
      · exact Yields.advance.bind fun _ _ => .unexpected
    · exact .unexpected

end

theorem script_yields (n : Nat) : Yields P (fun b : Block => Begin P b.walk) (script g n) :=
  (block_yields g n _).bind fun _ begins => Yields.expect.bind fun _ _ => .pure begins

end

/-! ## Texts -/

/-- Comments and the tokens behind them keep their places when they are put together. -/
theorem groupComments_ahead {P : Location → Prop} {comments tokens : List Token}
    (before : ∀ t ∈ comments, P t.span.start) (placed : ∀ t ∈ tokens, P t.span.start)
    (previous : Option Token) : Cursor.Ahead P ⟨groupComments comments tokens, previous⟩ := by
  induction tokens generalizing comments with
  | nil => exact List.forall_mem_nil _
  | cons t tokens ih =>
    obtain ⟨first, others⟩ := List.forall_mem_cons.1 placed
    rw [groupComments]
    split
    · exact ih (List.forall_mem_cons.2 ⟨first, before⟩) others
    · refine List.forall_mem_cons.2 ⟨⟨first, fun t member => ?_⟩, ih (List.forall_mem_nil _) others⟩
      exact before t (List.mem_reverse.1 member)

theorem Source.shows_faultError {source : Source} (fault : Fault) {span : Span}
    (place : span.start.Counts source.text) :
    source.Shows (faultError source.lines fault span).diagnostic := by
  unfold faultError
  split
  · refine shows_of_placed ?_ (.inr ⟨rfl, rfl⟩)
    rintro _ ⟨⟩
    exact place
  · exact shows_withLine fault place

namespace Block

variable {g : Grammar} {source : Source}

/-- An error of a text shows its line. -/
theorem shows_of_ofSource {error : ScriptError}
    (fails : ofSource g source = .error (.script error)) : source.Shows error.diagnostic := by
  have placed := TokenStream.ofSource_placed g source
  have ahead := groupComments_ahead (List.forall_mem_nil _) placed.tokens none
  unfold ofSource ofStream at fails
  dsimp only at fails
  split at fails
  · cases fails
  · rename_i ran
    cases fails
    exact Source.shows_faultError _ ((script_yields g _).fault ahead ran)
  · split at fails
    · rename_i ending
      cases fails
      exact placed.error _ _ ending
    · cases fails
  · cases fails

/-- The nodes of the tree of a text begin in it. -/
theorem placed_of_ofSource {script : Block} (parses : ofSource g source = .ok script) :
    Begin (·.Counts source.text) script.walk := by
  have placed := TokenStream.ofSource_placed g source
  have ahead := groupComments_ahead (List.forall_mem_nil _) placed.tokens none
  unfold ofSource ofStream at parses
  dsimp only at parses
  split at parses
  · rename_i ran
    cases parses
    exact ((script_yields g _).result ahead ran).1
  · cases parses
  · split at parses <;> cases parses
  · cases parses

end Block

end InstallScript
