import InstallScript.Proofs.Syntax.Derived
import InstallScript.Proofs.Syntax.Exact

/-!
Printing a tree and reading it back. A tree that was read can be written, as its names, numbers and
comments are those of tokens (`Phrase.Statement.writable`); its printed text is then read as its
tokens, and these derive it again, but for its stretches (`format_parses`).
-/

namespace InstallScript

/-! ## Trees that were read -/

/-- An item of a text: its token stands for what a token may stand for, and so do the comments
before it, which are kept. -/
structure Item.Lexed (g : Grammar) (item : Item) : Prop where
  token : InstallScript.Lexed g item.token.kind item.token.value
  comments : ∀ t ∈ item.comments, g.retainComments = true ∧ IsComment t.name

section

variable {g : Grammar}

theorem Item.Lexed.isName {item : Item} (lexed : item.Lexed g) (kind : item.kind = .identifier) :
    IsName g item.token.name := by
  obtain ⟨name, value, isName⟩ := lexed.token.name kind
  rwa [Token.name, value]

theorem Item.Lexed.literal {item : Item} (lexed : item.Lexed g)
    (kind : item.kind ∈ Phrase.literalKinds) : (Parser.literalOf item.token).Writable := by
  rw [Parser.literalOf]
  rcases List.mem_cons.1 kind with kind | kind
  · obtain ⟨n, value, literal⟩ := lexed.token.number kind
    rw [value]
    exact literal
  rcases List.mem_cons.1 kind with kind | kind
  · obtain ⟨s, value⟩ := lexed.token.string kind
    rw [value]
    exact trivial
  · obtain ⟨b, value⟩ := lexed.token.truth (List.mem_singleton.1 kind)
    rw [value]
    exact trivial

theorem Item.Lexed.loopWords {item : Item} {kind : TokenKind} (lexed : item.Lexed g)
    (isKind : item.kind = kind) (loop : kind ∈ loopKinds) : g.HasLoopWords := by
  subst isKind
  exact lexed.token.loop loop

theorem stmtsWritable_append {ss ss' : List Stmt} (first : stmtsWritable g ss)
    (second : stmtsWritable g ss') : stmtsWritable g (ss ++ ss') := by
  induction ss with
  | nil => exact second
  | cons s ss ih => exact ⟨first.1, ih first.2⟩

theorem Item.Lexed.comments_writable {item : Item} (lexed : item.Lexed g) :
    stmtsWritable g (item.comments.map Parser.commentStmt) := by
  have each := lexed.comments
  generalize item.comments = comments at each
  induction comments with
  | nil => exact trivial
  | cons t comments ih =>
    obtain ⟨first, others⟩ := List.forall_mem_cons.1 each
    exact ⟨first, ih others⟩

namespace Phrase

mutual

theorem Expression.writable {level : Nat} {ts : List Item} {e : Expr} :
    Expression g level ts e → (∀ item ∈ ts, item.Lexed g) → e.Writable g
  | .binary _ _ left right, lexed => by
    obtain ⟨leftLexed, rest⟩ := List.forall_mem_append.1 lexed
    exact ⟨left.writable leftLexed, right.writable (List.forall_mem_cons.1 rest).2⟩
  | .tighter _ inner, lexed => inner.writable lexed
  | .operand inner, lexed => inner.writable lexed

theorem Operand.writable {ts : List Item} {e : Expr} :
    Operand g ts e → (∀ item ∈ ts, item.Lexed g) → e.Writable g
  | .unary _ inner, lexed => inner.writable (List.forall_mem_cons.1 lexed).2
  | .literal kind, lexed => (List.forall_mem_singleton.1 lexed).literal kind
  | .variable kind, lexed => (List.forall_mem_singleton.1 lexed).isName kind
  | .call inner, lexed => inner.writable lexed
  | .parentheses _ _ inner, lexed =>
    inner.writable (List.forall_mem_append.1 (List.forall_mem_cons.1 lexed).2).1

theorem FunctionCall.writable {ts : List Item} {c : Call} :
    FunctionCall g ts c → (∀ item ∈ ts, item.Lexed g) → c.Writable g
  | .bare nameKind _ _, lexed =>
    ⟨(List.forall_mem_cons.1 lexed).1.isName nameKind, trivial, trivial⟩
  | .applied nameKind _ _ inner, lexed => by
    obtain ⟨name, rest⟩ := List.forall_mem_cons.1 lexed
    have inside := (List.forall_mem_append.1 (List.forall_mem_cons.1 rest).2).1
    exact ⟨name.isName nameKind, inner.writable inside⟩

theorem Arguments.writable {ts : List Item} {es : List Expr} {ks : List KeywordArgument} :
    Arguments g ts es ks → (∀ item ∈ ts, item.Lexed g) → exprsWritable g es ∧ keywordsWritable g ks
  | .lastPositional argument, lexed => ⟨⟨argument.writable lexed, trivial⟩, trivial⟩
  | .lastNamed argument, lexed => ⟨trivial, argument.writable lexed trivial⟩
  | .positional _ argument others, lexed => by
    obtain ⟨first, rest⟩ := List.forall_mem_append.1 lexed
    obtain ⟨positional, named⟩ := others.writable (List.forall_mem_cons.1 rest).2
    exact ⟨⟨argument.writable first, positional⟩, named⟩
  | .named _ argument others, lexed => by
    obtain ⟨first, rest⟩ := List.forall_mem_append.1 lexed
    exact ⟨trivial, argument.writable first (others.writable (List.forall_mem_cons.1 rest).2).2⟩

theorem Named.writable {ts : List Item} {k : KeywordArgument} {ks : List KeywordArgument} :
    Named g ts k → (∀ item ∈ ts, item.Lexed g) → keywordsWritable g ks →
      keywordsWritable g (k :: ks)
  | .mk allowed nameKind _ value, lexed, others => by
    obtain ⟨name, rest⟩ := List.forall_mem_cons.1 lexed
    exact ⟨allowed, name.isName nameKind, value.writable (List.forall_mem_cons.1 rest).2, others⟩

end

theorem Target.writable {ts : List Item} {name : String} {e : Expr} (phrase : Target g ts name e)
    (lexed : ∀ item ∈ ts, item.Lexed g) : IsName g name ∧ e.Writable g := by
  cases phrase with
  | mk nameKind _ value =>
    obtain ⟨name, rest⟩ := List.forall_mem_cons.1 lexed
    exact ⟨name.isName nameKind, value.writable (List.forall_mem_cons.1 rest).2⟩

theorem LoopStep.writable {ts : List Item} {step : Option Expr} (phrase : LoopStep g ts step)
    (lexed : ∀ item ∈ ts, item.Lexed g) : stepWritable g step := by
  cases phrase with
  | none => exact trivial
  | given _ value => exact value.writable (List.forall_mem_cons.1 lexed).2

theorem choice_writable {span : Span} {bs : List Branch} {otherwise : Option Block} (some : bs ≠ [])
    (branches : branchesWritable g bs) (last : ∀ b, otherwise = .some b → b.Writable g) :
    (Stmt.choice span bs otherwise).Writable g := by
  cases otherwise with
  | none => exact ⟨some, branches⟩
  | some b => exact ⟨some, branches, last b rfl⟩

mutual

/-- A statement that was read can be written. -/
theorem Statement.writable {ts : List Item} {s : Stmt} :
    Statement g ts s → (∀ item ∈ ts, item.Lexed g) → s.Writable g
  | .assign target, lexed => target.writable lexed
  | .letAssign _ target, lexed => target.writable (List.forall_mem_cons.1 lexed).2
  | .setAssign _ target, lexed => target.writable (List.forall_mem_cons.1 lexed).2
  | .call inner, lexed => inner.writable lexed
  | .choice _ first others, lexed => by
    obtain ⟨guarded, rest⟩ := List.forall_mem_append.1 (List.forall_mem_cons.1 lexed).2
    obtain ⟨branches, last⟩ := others.writable rest
    exact choice_writable nofun
      (first.writable guarded (List.forall_mem_cons.1 rest).1 branches) last
  | .whileLoop allowed wordKind test _ inner closingKind, lexed => by
    obtain ⟨word, rest⟩ := List.forall_mem_cons.1 lexed
    obtain ⟨tests, rest⟩ := List.forall_mem_append.1 rest
    obtain ⟨body, closing⟩ := List.forall_mem_append.1 (List.forall_mem_cons.1 rest).2
    exact ⟨allowed, word.loopWords wordKind (by decide), test.writable tests,
      inner.writable body (List.forall_mem_singleton.1 closing)⟩
  | .forLoop allowed wordKind counterKind _ start _ stop increment _ inner closingKind, lexed => by
    obtain ⟨word, rest⟩ := List.forall_mem_cons.1 lexed
    obtain ⟨counter, rest⟩ := List.forall_mem_cons.1 rest
    obtain ⟨firsts, rest⟩ := List.forall_mem_append.1 (List.forall_mem_cons.1 rest).2
    obtain ⟨lasts, rest⟩ := List.forall_mem_append.1 (List.forall_mem_cons.1 rest).2
    obtain ⟨steps, rest⟩ := List.forall_mem_append.1 rest
    obtain ⟨body, closing⟩ := List.forall_mem_append.1 (List.forall_mem_cons.1 rest).2
    exact ⟨allowed, word.loopWords wordKind (by decide), counter.isName counterKind,
      start.writable firsts, stop.writable lasts, increment.writable steps,
      inner.writable body (List.forall_mem_singleton.1 closing)⟩
  | .block _ inner _, lexed => by
    obtain ⟨body, closing⟩ := List.forall_mem_append.1 (List.forall_mem_cons.1 lexed).2
    exact inner.writable body (List.forall_mem_singleton.1 closing)
  | .ret _, _ => trivial

theorem Statements.writable {ts : List Item} {closing : Item} {ss : List Stmt} :
    Statements g ts closing ss → (∀ item ∈ ts, item.Lexed g) → closing.Lexed g → stmtsWritable g ss
  | .nil, _, closing => closing.comments_writable
  | .cons statement _ others, lexed, closing => by
    obtain ⟨first, rest⟩ := List.forall_mem_cons.1 lexed
    obtain ⟨more, rest⟩ := List.forall_mem_append.1 rest
    have whole := statement.writable (List.forall_mem_cons.2 ⟨first, more⟩)
    exact stmtsWritable_append first.comments_writable
      ⟨whole, others.writable (List.forall_mem_append.1 rest).2 closing⟩

theorem Body.writable {before : Option Token} {ts : List Item} {closing : Item} {b : Block} :
    Body g before ts closing b → (∀ item ∈ ts, item.Lexed g) → closing.Lexed g → b.Writable g
  | .mk inner, lexed, closing => inner.writable lexed closing

theorem Guarded.writable {word : Item} {ts : List Item} {closing : Item} {b : Branch}
    {bs : List Branch} : Guarded g word ts closing b → (∀ item ∈ ts, item.Lexed g) →
      closing.Lexed g → branchesWritable g bs → branchesWritable g (b :: bs)
  | .mk test _ inner, lexed, closing, others => by
    obtain ⟨tests, rest⟩ := List.forall_mem_append.1 lexed
    exact ⟨test.writable tests, inner.writable (List.forall_mem_cons.1 rest).2 closing, others⟩

theorem Alternatives.writable {ts : List Item} {bs : List Branch} {otherwise : Option Block} :
    Alternatives g ts bs otherwise → (∀ item ∈ ts, item.Lexed g) →
      branchesWritable g bs ∧ ∀ b, otherwise = some b → b.Writable g
  | .done _, _ => ⟨trivial, nofun⟩
  | .otherwise _ inner _, lexed => by
    obtain ⟨inside, closing⟩ := List.forall_mem_append.1 (List.forall_mem_cons.1 lexed).2
    refine ⟨trivial, fun b eq => ?_⟩
    cases eq
    exact inner.writable inside (List.forall_mem_singleton.1 closing)
  | .guarded _ first others, lexed => by
    obtain ⟨guarded, rest⟩ := List.forall_mem_append.1 (List.forall_mem_cons.1 lexed).2
    obtain ⟨branches, last⟩ := others.writable rest
    exact ⟨first.writable guarded (List.forall_mem_cons.1 rest).1 branches, last⟩

end

end Phrase

/-- The items of tokens have their tokens and comments from among them. -/
theorem mem_groupComments {tokens : List Token} :
    ∀ {comments : List Token}, (∀ t ∈ comments, t.kind = .comment) →
      ∀ item ∈ groupComments comments tokens, item.token ∈ tokens ∧
        ∀ t ∈ item.comments, t.kind = .comment ∧ (t ∈ comments ∨ t ∈ tokens) := by
  induction tokens with
  | nil =>
    intro _ _ item member
    rw [groupComments] at member
    exact absurd member List.not_mem_nil
  | cons t tokens ih =>
    intro comments areComments item member
    rw [groupComments] at member
    split at member
    · rename_i isComment
      obtain ⟨token, behind⟩ := ih (List.forall_mem_cons.2 ⟨isComment, areComments⟩) item member
      refine ⟨List.mem_cons_of_mem _ token, fun t' inside => ?_⟩
      obtain ⟨kind, source⟩ := behind t' inside
      rw [List.mem_cons] at source ⊢
      exact ⟨kind, by tauto⟩
    · rcases List.mem_cons.1 member with rfl | later
      · refine ⟨List.mem_cons_self, fun t' inside => ?_⟩
        have pending := List.mem_reverse.1 inside
        exact ⟨areComments t' pending, .inl pending⟩
      · obtain ⟨token, behind⟩ := ih (List.forall_mem_nil _) item later
        refine ⟨List.mem_cons_of_mem _ token, fun t' inside => ?_⟩
        obtain ⟨kind, source⟩ := behind t' inside
        exact ⟨kind, .inr (List.mem_cons_of_mem _ (source.resolve_left List.not_mem_nil))⟩

/-- The items of a text stand for what the items of a text may stand for. -/
theorem items_lexed (standard : g.Standard) (source : Source) :
    ∀ item ∈ groupComments [] (TokenStream.ofSource g source).tokens, item.Lexed g := by
  intro item member
  have lexed : ∀ t ∈ (TokenStream.ofSource g source).tokens,
      InstallScript.Lexed g t.kind t.value ∧ (t.kind = .comment → g.retainComments = true) :=
    TokenStream.tokensFrom_lexed standard _ _ _
  obtain ⟨token, comments⟩ := mem_groupComments (List.forall_mem_nil _) item member
  refine ⟨(lexed _ token).1, fun t inside => ?_⟩
  obtain ⟨kind, source⟩ := comments t inside
  obtain ⟨valued, kept⟩ := lexed t (source.resolve_left List.not_mem_nil)
  obtain ⟨text, value, isComment⟩ := valued.comment kind
  refine ⟨kept kind, ?_⟩
  rwa [Token.name, value]

/-- A tree that was read from a text can be written. -/
theorem Block.writable_of_source (standard : g.Standard) {source : Source} {b : Block}
    (parsed : Block.ofSource g source = .ok b) : b.Writable g := by
  unfold Block.ofSource Block.ofStream at parsed
  dsimp only at parsed
  split at parsed
  · rename_i b' c' ran
    cases parsed
    obtain ⟨body, closing, others, split, -, phrase⟩ := script_sound ran
    have lexed := items_lexed standard source
    rw [split] at lexed
    obtain ⟨inside, rest⟩ := List.forall_mem_append.1 lexed
    exact phrase.writable inside (List.forall_mem_cons.1 rest).1
  · cases parsed
  · split at parsed <;> cases parsed
  · cases parsed

/-! ## Trees that are read back -/

/-- A tree that can be written is read back, but for its stretches. -/
theorem Block.read_back (standard : g.Standard) {indent : String}
    (blank : ∀ c ∈ indent.toList, isGap c = true) {b : Block} (writable : b.Writable g)
    (file : Option String) :
    ∃ b', Block.ofSource g ⟨(b.format indent).toList, file⟩ = .ok b' ∧ b'.bare = b.bare := by
  obtain ⟨span, statements⟩ := b
  generalize textEq : ((Block.mk span statements).format indent).toList = text
  have reads := Block.format_reads standard blank writable
  rw [textEq] at reads
  obtain ⟨tokens, stop, stream, marks⟩ :
      ∃ tokens stop, TokenStream.ofSource g ⟨text, file⟩ =
        ⟨tokens ++ [TokenStream.endToken file stop], .finished⟩ ∧
          tokens.map Token.mark = stmtMarks statements :=
    TokenStream.tokensFrom_of_reads reads _ {} (Nat.lt_succ_self _)
  obtain ⟨items, behind, ss, groups, phrase, bare⟩ := stmts_derived statements writable [] tokens
    (TokenStream.endToken file stop) marks nofun
  have grouped : groupComments [] (tokens ++ [TokenStream.endToken file stop]) =
      items ++ [⟨behind, TokenStream.endToken file stop⟩] := by
    have all := groups []
    rwa [List.append_nil, groupComments, List.append_nil] at all
  obtain ⟨c', ran⟩ := script_complete (.mk (.mk phrase) rfl)
  refine ⟨.mk (blockSpan none items ⟨behind, TokenStream.endToken file stop⟩) ss, ?_,
    congrArg (Block.mk default) bare⟩
  rw [Block.ofSource, stream, Block.ofStream]
  dsimp only
  rw [grouped, ran]

/-- A script that can be read is read back from its canonical form, with white space of any kind for
the indentation, as the same program; and that has the same canonical form. -/
theorem format_parses (g : Grammar) (standard : g.Standard) (source : Source) (script : Block)
    (parsed : Block.ofSource g source = .ok script) (indent : String)
    (blank : ∀ c ∈ indent.toList, isGap c = true) (file : Option String) :
    ∃ script', Block.ofSource g ⟨(script.format indent).toList, file⟩ = .ok script' ∧
      script'.same script = true ∧ ∀ other, script'.format other = script.format other := by
  have writable := Block.writable_of_source standard parsed
  obtain ⟨script', read, bare⟩ := Block.read_back standard blank writable file
  exact ⟨script', read, Block.same_of_bare writable bare, Block.format_congr bare⟩

end

/-- A difference whose right operand needs parentheses, with a comment behind it. -/
def nestedDifference : List Char := "x = a - (b - c) # kept".toList

theorem nestedDifference_read_back : ∃ script script',
    Block.ofSource Grammar.second.withComments ⟨nestedDifference, none⟩ = .ok script ∧
      Block.ofSource Grammar.second.withComments ⟨(script.format "\t").toList, none⟩ = .ok script' ∧
      script'.same script = true ∧ script'.format = script.format := by
  have read :
      (Block.ofSource Grammar.second.withComments ⟨nestedDifference, none⟩).isOk = true := by
    decide +kernel
  cases parsed : Block.ofSource Grammar.second.withComments ⟨nestedDifference, none⟩ with
  | error e =>
    rw [parsed] at read
    cases read
  | ok script =>
    obtain ⟨script', back, same, format⟩ :=
      format_parses _ (.inr rfl) _ script parsed "\t" (List.all_eq_true.1 rfl) none
    exact ⟨script, script', rfl, back, same, format _⟩

end InstallScript
