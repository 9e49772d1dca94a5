import InstallScript.Proofs.Syntax.FewestParentheses
import InstallScript.Proofs.Syntax.PrintedExpressions
import InstallScript.Proofs.Syntax.KeptComments
import InstallScript.Proofs.Syntax.NodePlaces

/-!
The parentheses that are printed are needed. Every expression in a tree that was read stands for a
stretch of the tokens (`Phrase.Script.expressed`), so it has no more opening parentheses in its
printed form than the text has. A printed expression that lacks a pair of grouping parentheses is
read as the tokens that are left, one opening parenthesis too few for an equal expression
(`parentheses_needed`).
-/

namespace InstallScript

/-! ## The expressions of a tree -/

/-- Each expression among some nodes stands for a stretch of the items. -/
def Expressed (g : Grammar) (nodes : List Node) (ts : List Item) : Prop :=
  ∀ e, Node.expr e ∈ nodes → ∃ level us, us <:+: ts ∧ Phrase.Expression g level us e

namespace Expressed

variable {g : Grammar} {nodes nodes' : List Node} {ts us : List Item}

theorem nil : Expressed g [] ts := nofun

theorem within (expressed : Expressed g nodes us) (part : us <:+: ts) :
    Expressed g nodes ts := by
  intro e member
  obtain ⟨level, vs, inside, phrase⟩ := expressed e member
  exact ⟨level, vs, inside.trans part, phrase⟩

/-- Items may stand in front. -/
theorem behind (ts : List Item) (expressed : Expressed g nodes us) :
    Expressed g nodes (ts ++ us) :=
  expressed.within (List.suffix_append ts us).isInfix

theorem cons (item : Item) (expressed : Expressed g nodes us) :
    Expressed g nodes (item :: us) :=
  expressed.within (List.suffix_cons item us).isInfix

/-- Items may follow. -/
theorem before (us : List Item) (expressed : Expressed g nodes ts) :
    Expressed g nodes (ts ++ us) :=
  expressed.within (List.prefix_append ts us).isInfix

theorem both (left : Expressed g nodes ts) (right : Expressed g nodes' ts) :
    Expressed g (nodes ++ nodes') ts := by
  intro e member
  exact (List.mem_append.1 member).elim (left e) (right e)

theorem append (left : Expressed g nodes ts) (right : Expressed g nodes' us) :
    Expressed g (nodes ++ nodes') (ts ++ us) :=
  (left.before us).both (right.behind ts)

/-- An expression with those below it. -/
theorem expr {level : Nat} {e : Expr} (whole : Phrase.Expression g level ts e)
    (below : Expressed g nodes ts) : Expressed g (.expr e :: nodes) ts := by
  intro e' member
  rcases List.mem_cons.1 member with same | member
  · cases same
    exact ⟨level, ts, List.infix_rfl, whole⟩
  · exact below e' member

/-- A node that is no expression. -/
theorem other {node : Node} (below : Expressed g nodes ts)
    (noExpr : ∀ e, Node.expr e ≠ node := by nofun) : Expressed g (node :: nodes) ts := by
  intro e member
  exact below e ((List.mem_cons.1 member).resolve_left (noExpr e))

end Expressed

theorem Stmt.walk_choice (span : Span) (bs : List Branch) (otherwise : Option Block) :
    (Stmt.choice span bs otherwise).walk = .stmt (.choice span bs otherwise) ::
      (walkBranches bs ++ (otherwise.map Block.walk).getD []) := by
  cases otherwise with
  | none => rw [Stmt.walk, Option.map_none, Option.getD_none, List.append_nil]
  | some b => rw [Stmt.walk, Option.map_some, Option.getD_some]

theorem Stmt.walk_forLoop (span : Span) (counter : String) (first last : Expr)
    (step : Option Expr) (body : Block) :
    (Stmt.forLoop span counter first last step body).walk =
      .stmt (.forLoop span counter first last step body) ::
        (first.walk ++ last.walk ++ body.walk ++ (step.map Expr.walk).getD []) := by
  cases step with
  | none => rw [Stmt.walk, Option.map_none, Option.getD_none, List.append_nil]
  | some e => rw [Stmt.walk, Option.map_some, Option.getD_some]

theorem walkKeywords_cons (k : KeywordArgument) (ks : List KeywordArgument) :
    walkKeywords (k :: ks) = walkKeywords [k] ++ walkKeywords ks := by
  obtain ⟨span, name, e⟩ := k
  rw [walkKeywords, walkKeywords, walkKeywords, List.append_nil, List.cons_append]

namespace Phrase

variable {g : Grammar}

mutual

theorem Expression.expressed {level : Nat} {ts : List Item} {e : Expr} :
    Expression g level ts e → Expressed g e.walk ts
  | .binary tightness signKind left right =>
    .expr (.binary tightness signKind left right) (left.expressed.append (right.expressed.cons _))
  | .tighter _ inner => inner.expressed
  | .operand inner => inner.expressed

theorem Operand.expressed {ts : List Item} {e : Expr} : Operand g ts e → Expressed g e.walk ts
  | .unary signKind inner => .expr (.operand (.unary signKind inner)) (inner.expressed.cons _)
  | .literal kind => .expr (.operand (.literal kind)) .nil
  | .variable kind => .expr (.operand (.variable kind)) .nil
  | .call inner => .expr (.operand (.call inner)) inner.expressed
  | .parentheses _ _ inner => (inner.expressed.before _).cons _

theorem FunctionCall.expressed {ts : List Item} {c : Call} :
    FunctionCall g ts c → Expressed g c.walkArguments ts
  | .bare _ _ _ => .nil
  | .applied _ _ _ inner => ((inner.expressed.before _).cons _).cons _

theorem Arguments.expressed {ts : List Item} {es : List Expr} {ks : List KeywordArgument} :
    Arguments g ts es ks → Expressed g (walkExprs es ++ walkKeywords ks) ts
  | .lastPositional argument => by
    rw [walkExprs, walkExprs, walkKeywords, List.append_nil, List.append_nil]
    exact argument.expressed
  | .lastNamed argument => by
    rw [walkExprs, List.nil_append]
    exact argument.expressed
  | .positional _ argument others => by
    rw [walkExprs, List.append_assoc]
    exact argument.expressed.append (others.expressed.cons _)
  | .named _ argument others => by
    have behind := others.expressed
    rw [walkExprs, List.nil_append] at behind ⊢
    rw [walkKeywords_cons]
    exact argument.expressed.append (behind.cons _)

theorem Named.expressed {ts : List Item} {k : KeywordArgument} :
    Named g ts k → Expressed g (walkKeywords [k]) ts
  | .mk _ _ _ value => by
    rw [walkKeywords, walkKeywords, List.append_nil]
    exact .other ((value.expressed.cons _).cons _)

end

theorem LoopStep.expressed {ts : List Item} {step : Option Expr} (phrase : LoopStep g ts step) :
    Expressed g ((step.map Expr.walk).getD []) ts := by
  cases phrase with
  | none => exact .nil
  | given _ value => exact value.expressed.cons _

theorem Target.expressed {ts : List Item} {name : String} {e : Expr}
    (phrase : Target g ts name e) : Expressed g e.walk ts := by
  obtain ⟨-, -, value⟩ := phrase
  exact (value.expressed.cons _).cons _

/-- There are no expressions in comments. -/
theorem comments_expressed (comments : List Token) (ts : List Item) :
    Expressed g (walkStmts (comments.map Parser.commentStmt)) ts := by
  induction comments with
  | nil => exact .nil
  | cons t comments ih => exact .other ih

mutual

theorem Statement.expressed {ts : List Item} {s : Stmt} :
    Statement g ts s → Expressed g s.walk ts
  | .assign target => .other target.expressed
  | .letAssign _ target => .other (target.expressed.cons _)
  | .setAssign _ target => .other (target.expressed.cons _)
  | .call inner => .other (.expr (.operand (.call inner)) inner.expressed)
  | .choice _ first others => by
    rw [Stmt.walk_choice, walkBranches_cons, List.append_assoc]
    exact .other ((first.expressed.append others.expressed).cons _)
  | .whileLoop _ _ test _ inner _ => by
    rw [Stmt.walk]
    exact .other ((test.expressed.append ((inner.expressed.before _).cons _)).cons _)
  | .forLoop _ _ _ _ start _ stop increment _ inner _ => by
    rw [Stmt.walk_forLoop, List.append_assoc, List.append_assoc]
    refine .other (.cons _ (.cons _ (.cons _ (start.expressed.append
      (.cons _ (stop.expressed.append (.both ?_ (increment.expressed.before _))))))))
    exact ((inner.expressed.before _).cons _).behind _
  | .block _ inner _ => .other ((inner.expressed.before _).cons _)
  | .ret _ => .other .nil

theorem Statements.expressed {ts : List Item} {closing : Item} {ss : List Stmt} :
    Statements g ts closing ss → Expressed g (walkStmts ss) ts
  | .nil => comments_expressed _ _
  | .cons statement _ others => by
    rw [walkStmts_append, walkStmts]
    refine (comments_expressed _ _).both ?_
    exact statement.expressed.append (others.expressed.behind _)

theorem Body.expressed {before : Option Token} {ts : List Item} {closing : Item} {b : Block} :
    Body g before ts closing b → Expressed g b.walk ts
  | .mk inner => .other inner.expressed

theorem Guarded.expressed {word closing : Item} {ts : List Item} {b : Branch} :
    Guarded g word ts closing b → Expressed g (walkBranches [b]) ts
  | .mk test _ inner => by
    rw [walkBranches, walkBranches, List.append_nil]
    exact .other (test.expressed.append (inner.expressed.cons _))

theorem Alternatives.expressed {items : List Item} {bs : List Branch} {otherwise : Option Block} :
    Alternatives g items bs otherwise →
      Expressed g (walkBranches bs ++ (otherwise.map Block.walk).getD []) items
  | .done _ => .nil
  | .otherwise _ inner _ => .other ((inner.expressed.before _).cons _)
  | .guarded _ first others => by
    rw [walkBranches_cons, List.append_assoc]
    exact (first.expressed.append others.expressed).cons _

end

/-- Every expression in a script stands for a stretch of its tokens. -/
theorem Script.expressed {items : List Item} {b : Block} (phrase : Script g items b) :
    Expressed g b.walk items := by
  obtain ⟨inner, -⟩ := phrase
  exact inner.expressed.before _

end Phrase

/-! ## Counting in a text -/

section

variable {g : Grammar}

/-- Items have the opening parentheses of their tokens. -/
theorem itemOpenings_groupComments (tokens : List Token) : ∀ comments : List Token,
    itemOpenings (groupComments comments tokens) = openings (tokens.map Token.mark) := by
  induction tokens with
  | nil => exact fun _ => rfl
  | cons t tokens ih =>
    intro comments
    rw [groupComments, List.map_cons]
    split
    · rename_i isComment
      rw [ih]
      exact (openings_cons_of t.value _ (by simp [isComment])).symm
    · have others := ih []
      unfold itemOpenings openings at others ⊢
      rw [List.countP_cons, List.countP_cons, others]
      rfl

/-- No expression that is read from a text has more opening parentheses than the text, in its
printed form. -/
theorem Block.openings_le {source : Source} {script : Block} (words : g.WordsOnly)
    (parsed : Block.ofSource g source = .ok script) {e : Expr}
    (member : .expr e ∈ script.walk) :
    openings e.marks ≤ openings ((TokenStream.ofSource g source).tokens.map Token.mark) := by
  obtain ⟨-, phrase⟩ := Block.script_of_source words parsed
  obtain ⟨level, us, part, inside⟩ := phrase.expressed e member
  rw [← itemOpenings_groupComments]
  calc openings e.marks
      ≤ openingsAt level e := by
        rw [openingsAt, openings_enclosed]
        exact Nat.le_add_right _ _
    _ ≤ itemOpenings us := inside.fewest
    _ ≤ _ := part.sublist.countP_le

/-- An expression that is read from a text can be written. -/
theorem Block.expr_writable {source : Source} {script : Block} (standard : g.Standard)
    (parsed : Block.ofSource g source = .ok script) {e : Expr}
    (member : .expr e ∈ script.walk) : e.Writable g := by
  obtain ⟨-, phrase⟩ := Block.script_of_source standard.wordsOnly parsed
  obtain ⟨level, us, part, inside⟩ := phrase.expressed e member
  exact inside.writable fun item among => items_lexed standard source item (part.subset among)

/-! ## Texts without a pair of parentheses -/

/-- A text without the two characters at which two tokens begin. -/
def withoutPair (text : List Char) (opening closing : Token) : List Char :=
  (text.eraseIdx closing.span.start.offset).eraseIdx opening.span.start.offset

theorem eraseIdx_between (front back : List Char) (c : Char) :
    (front ++ c :: back).eraseIdx front.length = front ++ back := by
  rw [List.eraseIdx_append_of_length_le (Nat.le_refl _), Nat.sub_self]
  rfl

theorem withoutPair_between {before inside after : List Char} {c d : Char} {opening closing : Token}
    (place : opening.span.start.offset = before.length)
    (place' : closing.span.start.offset = opening.span.start.offset + 1 + inside.length) :
    withoutPair (before ++ c :: (inside ++ d :: after)) opening closing =
      before ++ (inside ++ after) := by
  have last : closing.span.start.offset = (before ++ c :: inside).length := by
    rw [place', place, List.length_append, List.length_cons]
    omega
  have grouped : before ++ c :: (inside ++ d :: after) = (before ++ c :: inside) ++ d :: after := by
    rw [List.append_assoc, List.cons_append]
  rw [withoutPair, grouped, last, eraseIdx_between, List.append_assoc, List.cons_append, place,
    eraseIdx_between]

/-- A text of words that lacks a pair of grouping parentheses is still one of words, with one
opening parenthesis less. -/
theorem Legible.without_pair {ps : List Piece} (legible : Legible g ps []) {us vs ws : List Token}
    {opening closing : Token}
    (split : (us ++ opening :: (vs ++ closing :: ws)).map
      (fun t => (t.mark, t.span.start.offset)) = placedMarks 0 ps)
    (isOpening : opening.kind = .leftParen) (isClosing : closing.kind = .rightParen)
    (grouping : ∀ t, us.getLast? = some t → t.kind ≠ .identifier) :
    ∃ qs, Legible g qs [] ∧ piecesText qs = withoutPair (piecesText ps) opening closing ∧
      openings (piecesMarks qs) < openings (piecesMarks ps) := by
  rw [List.map_append, List.map_cons, List.map_append, List.map_cons] at split
  obtain ⟨before, lexeme, after, rfl, place, marks, rest⟩ := placedMarks_split split.symm
  obtain ⟨inside, lexeme', after, rfl, place', -, -⟩ := placedMarks_split rest
  obtain rfl : lexeme = ['('] := by
    cases legible.behind with
    | word sound _ _ => exact sound.opening isOpening
  obtain rfl : lexeme' = [')'] := by
    cases legible.behind with
    | word _ _ more =>
      cases more.behind with
      | word sound _ _ => exact sound.closing isClosing
  refine ⟨before ++ (inside ++ after), ?_, ?_, ?_⟩
  · have fewer : Legible g ((before ++ .word ['('] opening.mark :: inside) ++ after) [] := by
      have grouped : Legible g ((before ++ .word ['('] opening.mark :: inside) ++
          .word [')'] closing.mark :: after) [] := by
        rwa [List.append_assoc, List.cons_append]
      exact grouped.without_closing isClosing
    rw [List.append_assoc, List.cons_append] at fewer
    refine fewer.without_opening isOpening fun m isLast => ?_
    rw [marks, List.map_map, List.getLast?_map, Option.map_eq_some_iff] at isLast
    obtain ⟨t, isLast, rfl⟩ := isLast
    exact grouping t isLast
  · rw [Nat.zero_add] at place
    simp only [piecesText_append, piecesText_word]
    exact (withoutPair_between place place').symm
  · have opens : openings (opening.mark :: (piecesMarks inside ++ closing.mark ::
        piecesMarks after)) = openings (piecesMarks inside ++ closing.mark ::
          piecesMarks after) + 1 := List.countP_cons_of_pos (decide_eq_true isOpening)
    have closes : openings (closing.mark :: piecesMarks after) = openings (piecesMarks after) :=
      openings_cons_of closing.value _ (by simp [isClosing])
    simp only [piecesMarks_append, piecesMarks_word, openings_append, opens, closes]
    omega

theorem placedMarks_fst (n : Nat) (ps : List Piece) :
    (placedMarks n ps).map (·.1) = piecesMarks ps := by
  induction ps generalizing n with
  | nil => rfl
  | cons p ps ih =>
    cases p with
    | blank => exact ih _
    | word lexeme mark => exact congrArg (mark :: ·) (ih _)

/-- The tokens of a text of words, and the one that ends it. -/
theorem TokenStream.ofSource_legible {ps : List Piece} (legible : Legible g ps [])
    (file : Option String) : ∃ tokens stop, TokenStream.ofSource g ⟨piecesText ps, file⟩ =
        ⟨tokens ++ [TokenStream.endToken file stop], .finished⟩ ∧
      tokens.map (fun t => (t.mark, t.span.start.offset)) = placedMarks 0 ps :=
  TokenStream.tokensFrom_legible legible _ {} (Nat.lt_succ_self _)

/-- A text of words has their opening parentheses. -/
theorem TokenStream.openings_legible {ps : List Piece} (legible : Legible g ps [])
    (file : Option String) :
    openings ((TokenStream.ofSource g ⟨piecesText ps, file⟩).tokens.map Token.mark) =
      openings (piecesMarks ps) := by
  obtain ⟨tokens, stop, stream, placed⟩ := TokenStream.ofSource_legible legible file
  have marks : tokens.map Token.mark = piecesMarks ps := by
    rw [← placedMarks_fst 0 ps, ← placed, List.map_map]
    rfl
  rw [stream, List.map_append, openings_append, marks]
  rfl

theorem split_before_last {tokens us ws : List Token} {last closing : Token}
    (split : tokens ++ [last] = us ++ closing :: ws) (other : closing ≠ last) :
    ∃ ws', tokens = us ++ closing :: ws' := by
  rcases List.eq_nil_or_concat ws with rfl | ⟨ws', last', rfl⟩
  · exact absurd (List.cons.inj (List.append_inj' split rfl).2).1.symm other
  · rw [List.concat_eq_append, ← List.cons_append, ← List.append_assoc] at split
    exact ⟨ws', (List.append_inj' split rfl).1⟩

/-! ## Printed expressions -/

/-- No pair of grouping parentheses in the printed text of an expression can be left out: what is
read then, in an assignment, has no expression in it that is equal to the one that was printed. A
parenthesis groups if no name stands in front of it. It makes no difference which closing one is
left out with it, its own one or another. -/
theorem parentheses_needed (g : Grammar) (standard : g.Standard) (source : Source) (script : Block)
    (parsed : Block.ofSource g source = .ok script) (e : Expr) (member : .expr e ∈ script.walk)
    (us vs ws : List Token) (opening closing : Token)
    (split : (TokenStream.ofSource g (.ofString e.text)).tokens =
      us ++ opening :: (vs ++ closing :: ws))
    (isOpening : opening.kind = .leftParen) (isClosing : closing.kind = .rightParen)
    (grouping : ∀ t, us.getLast? = some t → t.kind ≠ .identifier) (name : String)
    (isName : IsName g name) (file : Option String) (script' : Block)
    (read : Block.ofSource g
      ⟨(name ++ " = ").toList ++ withoutPair e.text.toList opening closing, file⟩ = .ok script') :
    ∀ e', .expr e' ∈ script'.walk → e'.same e = false := by
  intro e' member'
  obtain ⟨-, ps, textEq, marks, legible⟩ :=
    Expr.inPieces standard (Block.expr_writable standard parsed member)
  have alone : Legible g ps [] := legible [] (by decide : nextChar [] ∈ [' ', ')', ','])
  obtain ⟨tokens, stop, stream, placed⟩ := TokenStream.ofSource_legible alone none
  rw [Source.ofString, ← textEq, stream, ← List.cons_append, ← List.append_assoc] at split
  have notLast : closing ≠ TokenStream.endToken none stop := by
    rintro rfl
    cases isClosing
  obtain ⟨ws', rfl⟩ := split_before_last split notLast
  rw [List.append_assoc, List.cons_append] at placed
  obtain ⟨qs, legible', textEq', fewer⟩ :=
    alone.without_pair placed isOpening isClosing grouping
  have assignment : Legible g (.word name.toList (.of .identifier (.text name)) :: .blank ::
      .word ['='] (.word .assign) :: .blank :: qs) [] :=
    .word (.name isName) (.inl rfl) (.blank (.word .assign (.inl rfl) (.blank legible')))
  have written : (name ++ " = ").toList ++ withoutPair e.text.toList opening closing =
      piecesText (.word name.toList (.of .identifier (.text name)) :: .blank ::
        .word ['='] (.word .assign) :: .blank :: qs) := by
    rw [← textEq, ← textEq', String.toList_append, List.append_assoc]
    rfl
  rw [written] at read
  have counted : openings e'.marks < openings e.marks := by
    calc openings e'.marks
        ≤ _ := Block.openings_le standard.wordsOnly read member'
      _ = _ := TokenStream.openings_legible assignment file
      _ = openings (piecesMarks qs) := rfl
      _ < openings (piecesMarks ps) := fewer
      _ = openings e.marks := by rw [marks]
  rw [Bool.eq_false_iff]
  exact fun equal => Nat.ne_of_lt counted (Expr.openings_same equal)

/-- The parentheses of `a - (b - c)` and the other tokens of this text. -/
def groupedTokens : List Token :=
  (TokenStream.ofSource Grammar.second (.ofString "a - (b - c)")).tokens

def groupedOpening : Token :=
  ⟨.leftParen, .text "(", "(", ⟨⟨1, 5, 4⟩, ⟨1, 6, 5⟩, none⟩⟩

def groupedClosing : Token :=
  ⟨.rightParen, .text ")", ")", ⟨⟨1, 11, 10⟩, ⟨1, 12, 11⟩, none⟩⟩

/-- A node is an expression that is printed as a given text. -/
def Node.isPrinted (text : String) : Node → Bool
  | .expr e => e.text = text
  | _ => false

/-- Without its parentheses this is `a - b - c`, which is a different expression. -/
theorem groupedDifference_needed : ∃ script script' e,
    Block.ofSource Grammar.second (.ofString "x = a - (b - c)") = .ok script ∧
      .expr e ∈ script.walk ∧ e.text = "a - (b - c)" ∧
      Block.ofSource Grammar.second (.ofString "x = a - b - c") = .ok script' ∧
      ∀ e', .expr e' ∈ script'.walk → e'.same e = false := by
  have found : (Block.ofSource Grammar.second (.ofString "x = a - (b - c)")).toOption.any
      (·.walk.any (Node.isPrinted "a - (b - c)")) = true := by decide +kernel
  have reads : (Block.ofSource Grammar.second (.ofString "x = a - b - c")).isOk = true := by
    decide +kernel
  have isName : IsName Grammar.second "x" :=
    ⟨⟨'x', [], rfl, by decide +kernel⟩, List.all_eq_true.1 (by decide +kernel), by decide +kernel⟩
  have split : groupedTokens = groupedTokens.take 2 ++ groupedOpening ::
      ((groupedTokens.drop 3).take 3 ++ groupedClosing :: groupedTokens.drop 7) := by
    decide +kernel
  cases parsed : Block.ofSource Grammar.second (.ofString "x = a - (b - c)") with
  | error _ =>
    rw [parsed] at found
    cases found
  | ok script =>
    rw [parsed] at found
    obtain ⟨node, member, printed⟩ := List.any_eq_true.1 found
    cases node with
    | expr e =>
      have text : e.text = "a - (b - c)" := of_decide_eq_true printed
      have shorter : "x = a - b - c".toList =
          ("x" ++ " = ").toList ++ withoutPair e.text.toList groupedOpening groupedClosing := by
        rw [text]
        decide +kernel
      cases read : Block.ofSource Grammar.second (.ofString "x = a - b - c") with
      | error _ =>
        rw [read] at reads
        cases reads
      | ok script' =>
        rw [Source.ofString, shorter] at read
        have needed := parentheses_needed Grammar.second (.inr rfl) _ script parsed e member _ _ _
          groupedOpening groupedClosing (by rw [text]; exact split) rfl rfl (by decide +kernel) "x"
          isName none script' read
        exact ⟨script, script', e, rfl, member, text, rfl, needed⟩
    | _ => cases printed

end

end InstallScript
