import InstallScript.Proofs.Syntax.KeptComments

/-!
Scripts of one version of the language under another one that has further words and further forms.
A script keeps its tree, with all its places, as long as none of its names is one of the new words
(`later_version_accepts`).

New words concern the tokens alone. Where no name is one of them, the same tokens are found. New
forms concern the grammar alone, and a form that is added takes nothing away: what is derived
without it is derived with it. That the parser reads what is derived, and nothing else, holds of
every version.
-/

namespace InstallScript

/-- A version of the language that has the words and the forms of another one, and some words more.
Comments are treated as in that one. -/
structure Grammar.Extends (g' g : Grammar) (words : List (String × TokenKind)) : Prop where
  keywords : ∀ word, g'.keyword? word = (g.keyword? word).or (words.lookup (lowerAscii word))
  comments : g'.retainComments = g.retainComments
  loops : g.loops = true → g'.loops = true
  keywordArguments : g.keywordArguments = true → g'.keywordArguments = true

/-- The second version has the words of loops more than the first one, whether comments are kept or
not. -/
theorem Grammar.second_extends_first (keep : Bool) :
    { Grammar.second with retainComments := keep }.Extends
      { Grammar.first with retainComments := keep } loopKeywords :=
  ⟨fun _ => List.lookup_append, rfl, fun _ => rfl, fun _ => rfl⟩

/-- If the token is a name, then in small letters it is none of some words. -/
def Token.Spares (words : List (String × TokenKind)) (t : Token) : Prop :=
  t.kind = .identifier → lowerAscii t.lexeme ∉ words.map (·.1)

section

variable {g g' : Grammar} {words : List (String × TokenKind)}

/-! ## The same tokens -/

/-- Only a new word that is no keyword so far becomes another token. -/
theorem scanWord_of_extends (later : g'.Extends g words) {cs : List Char}
    (spared : ∀ value length, scanWord g cs = .token .identifier value length →
      lowerAscii (String.ofList (cs.take length)) ∉ words.map (·.1)) :
    scanWord g' cs = scanWord g cs := by
  have whole : cs.take (cs.takeWhile isNamePart).length = cs.takeWhile isNamePart :=
    (List.prefix_iff_eq_take.1 (List.takeWhile_prefix _)).symm
  unfold scanWord at spared ⊢
  dsimp only at spared ⊢
  rw [later.keywords]
  cases found : g.keyword? (String.ofList (cs.takeWhile isNamePart)) with
  | some kind => rw [Option.some_or]
  | none =>
    rw [found] at spared
    have notNew := spared _ _ rfl
    rw [whole] at notNew
    have noEntry : words.lookup (lowerAscii (String.ofList (cs.takeWhile isNamePart))) = none := by
      apply List.lookup_eq_none_iff.2
      intro entry member
      apply bne_iff_ne.2
      intro same
      exact notNew (List.mem_map.2 ⟨entry, member, same.symm⟩)
    rw [noEntry, Option.none_or]

theorem scan_of_extends (later : g'.Extends g words) {c : Char} {rest : List Char}
    (spared : ∀ value length, scan g c rest = .token .identifier value length →
      lowerAscii (String.ofList ((c :: rest).take length)) ∉ words.map (·.1)) :
    scan g' c rest = scan g c rest := by
  unfold scan at spared ⊢
  split_ifs at spared ⊢
  all_goals first | rfl | exact scanWord_of_extends later spared

/-- A text has the same tokens under a later version, and breaks off at the same fault, if none of
its names is a new word. -/
theorem tokensFrom_of_extends (later : g'.Extends g words) (file : Option String)
    (lines : List String) :
    ∀ (steps : Nat) (place : Location) (cs : List Char),
      (∀ t ∈ (TokenStream.tokensFrom g file lines steps place cs).tokens, t.Spares words) →
      TokenStream.tokensFrom g' file lines steps place cs =
        TokenStream.tokensFrom g file lines steps place cs
  | 0, _, _, _ => rfl
  | steps + 1, place, cs, spared => by
    rw [TokenStream.tokensFrom] at spared ⊢
    rw [TokenStream.tokensFrom]
    dsimp only at spared ⊢
    generalize cs.takeWhile isGap = gap at spared ⊢
    generalize cs.dropWhile isGap = text at spared ⊢
    cases text with
    | nil => rfl
    | cons c rest =>
      dsimp only at spared ⊢
      have same : scan g' c rest = scan g c rest := by
        apply scan_of_extends later
        intro value length found
        rw [found] at spared
        dsimp only at spared
        rw [if_neg (by rintro ⟨isComment, -⟩; cases isComment)] at spared
        exact (List.forall_mem_cons.1 spared).1 rfl
      rw [same, later.comments]
      cases found : scan g c rest with
      | fault fault lead length => rfl
      | token kind value length =>
        rw [found] at spared
        dsimp only at spared ⊢
        -- A comment that is dropped leaves the tokens behind it; any other one is kept before them.
        have others := tokensFrom_of_extends later file lines steps
          ((place.after gap).after ((c :: rest).take length)) ((c :: rest).drop length)
          fun t member => by
            split at spared
            · exact spared t member
            · exact (List.forall_mem_cons.1 spared).2 t member
        rw [others]

/-! ## The same derivations -/

namespace Phrase

mutual

theorem Expression.of_extends {level : Nat} {ts : List Item} {e : Expr}
    (later : g'.Extends g words) : Expression g level ts e → Expression g' level ts e
  | .binary tightness signKind left right =>
    .binary tightness signKind (left.of_extends later) (right.of_extends later)
  | .tighter bound inner => .tighter bound (inner.of_extends later)
  | .operand inner => .operand (inner.of_extends later)

theorem Operand.of_extends {ts : List Item} {e : Expr} (later : g'.Extends g words) :
    Operand g ts e → Operand g' ts e
  | .unary signKind inner => .unary signKind (inner.of_extends later)
  | .literal kind => .literal kind
  | .variable kind => .variable kind
  | .call inner => .call (inner.of_extends later)
  | .parentheses openingKind closingKind inner =>
    .parentheses openingKind closingKind (inner.of_extends later)

theorem FunctionCall.of_extends {ts : List Item} {c : Call} (later : g'.Extends g words) :
    FunctionCall g ts c → FunctionCall g' ts c
  | .bare nameKind openingKind closingKind => .bare nameKind openingKind closingKind
  | .applied nameKind openingKind closingKind inner =>
    .applied nameKind openingKind closingKind (inner.of_extends later)

theorem Arguments.of_extends {ts : List Item} {es : List Expr} {ks : List KeywordArgument}
    (later : g'.Extends g words) : Arguments g ts es ks → Arguments g' ts es ks
  | .lastPositional argument => .lastPositional (argument.of_extends later)
  | .lastNamed argument => .lastNamed (argument.of_extends later)
  | .positional commaKind argument others =>
    .positional commaKind (argument.of_extends later) (others.of_extends later)
  | .named commaKind argument others =>
    .named commaKind (argument.of_extends later) (others.of_extends later)

theorem Named.of_extends {ts : List Item} {k : KeywordArgument} (later : g'.Extends g words) :
    Named g ts k → Named g' ts k
  | .mk allowed nameKind signKind value =>
    .mk (later.keywordArguments allowed) nameKind signKind (value.of_extends later)

end

theorem LoopStep.of_extends {ts : List Item} {e : Option Expr} (later : g'.Extends g words)
    (phrase : LoopStep g ts e) : LoopStep g' ts e := by
  cases phrase with
  | none => exact .none
  | given kind value => exact .given kind (value.of_extends later)

theorem Target.of_extends {ts : List Item} {name : String} {e : Expr} (later : g'.Extends g words)
    (phrase : Target g ts name e) : Target g' ts name e := by
  obtain ⟨nameKind, signKind, value⟩ := phrase
  exact .mk nameKind signKind (value.of_extends later)

mutual

theorem Statement.of_extends {ts : List Item} {s : Stmt} (later : g'.Extends g words) :
    Statement g ts s → Statement g' ts s
  | .assign target => .assign (target.of_extends later)
  | .letAssign kind target => .letAssign kind (target.of_extends later)
  | .setAssign kind target => .setAssign kind (target.of_extends later)
  | .call inner => .call (inner.of_extends later)
  | .choice kind first others => .choice kind (first.of_extends later) (others.of_extends later)
  | .whileLoop allowed kind test doKind inner closingKind =>
    .whileLoop (later.loops allowed) kind (test.of_extends later) doKind (inner.of_extends later)
      closingKind
  | .forLoop allowed kind counterKind signKind start toKind stop increment doKind inner
      closingKind =>
    .forLoop (later.loops allowed) kind counterKind signKind (start.of_extends later) toKind
      (stop.of_extends later) (increment.of_extends later) doKind (inner.of_extends later)
      closingKind
  | .block kind inner closingKind => .block kind (inner.of_extends later) closingKind
  | .ret kind => .ret kind

theorem Statements.of_extends {ts : List Item} {closing : Item} {ss : List Stmt}
    (later : g'.Extends g words) : Statements g ts closing ss → Statements g' ts closing ss
  | .nil => .nil
  | .cons statement separated others =>
    .cons (statement.of_extends later) separated (others.of_extends later)

theorem Body.of_extends {before : Option Token} {ts : List Item} {closing : Item} {b : Block}
    (later : g'.Extends g words) : Body g before ts closing b → Body g' before ts closing b
  | .mk inner => .mk (inner.of_extends later)

theorem Guarded.of_extends {word closing : Item} {ts : List Item} {b : Branch}
    (later : g'.Extends g words) : Guarded g word ts closing b → Guarded g' word ts closing b
  | .mk test kind inner => .mk (test.of_extends later) kind (inner.of_extends later)

theorem Alternatives.of_extends {items : List Item} {bs : List Branch} {otherwise : Option Block}
    (later : g'.Extends g words) :
    Alternatives g items bs otherwise → Alternatives g' items bs otherwise
  | .done kind => .done kind
  | .otherwise kind inner closingKind => .otherwise kind (inner.of_extends later) closingKind
  | .guarded kind first others => .guarded kind (first.of_extends later) (others.of_extends later)

end

theorem Script.of_extends {items : List Item} {b : Block} (later : g'.Extends g words)
    (phrase : Script g items b) : Script g' items b := by
  obtain ⟨inner, isEnd⟩ := phrase
  exact .mk (inner.of_extends later) isEnd

end Phrase

/-! ## The same trees -/

/-- A script none of whose names is a new word has the same tree under a later version. -/
theorem Block.ofSource_of_extends (later : g'.Extends g words) (wordsOnly : g.WordsOnly)
    {source : Source} {b : Block} (parsed : Block.ofSource g source = .ok b)
    (spared : ∀ t ∈ (TokenStream.ofSource g source).tokens, t.Spares words) :
    Block.ofSource g' source = .ok b := by
  obtain ⟨once, phrase⟩ := Block.script_of_source wordsOnly parsed
  have same : TokenStream.ofSource g' source = TokenStream.ofSource g source :=
    tokensFrom_of_extends later source.file source.lines _ _ _ spared
  rw [Block.ofSource, same]
  exact (Block.ofStream_eq_ok once).2 (phrase.of_extends later)

end

/-- The second version accepts a script of the first one if none of its names is a word of loops in
small letters, and gives the same tree with the same places. -/
theorem later_version_accepts (keep : Bool) (source : Source) (b : Block)
    (parsed : Block.ofSource { Grammar.first with retainComments := keep } source = .ok b)
    (noLoop : ∀ t ∈
      (TokenStream.ofSource { Grammar.first with retainComments := keep } source).tokens,
      t.kind = .identifier → lowerAscii t.lexeme ∉ Grammar.loopKeywords.map (·.1)) :
    Block.ofSource { Grammar.second with retainComments := keep } source = .ok b := by
  have standard : { Grammar.first with retainComments := keep }.Standard := .inl rfl
  exact Block.ofSource_of_extends (Grammar.second_extends_first keep) standard.wordsOnly parsed
    noLoop

/-- A script of the first version, with a comment in front of each statement. Some names begin with
words of loops. -/
def loopLikeNames : List Char :=
  ("# steps\nTodo = Count(1, 2)\n# end\n" ++
    "if Todo >= -(2) then forward = Todo else whilst = 3 endif").toList

/-- The second version reads it as the first one does. It does not accept a word of loops as a
name. -/
theorem loopLikeNames_accepted :
    (∃ b, Block.ofSource { Grammar.first with retainComments := true } ⟨loopLikeNames, none⟩ =
        .ok b ∧ b.statements.length = 4 ∧
      Block.ofSource { Grammar.second with retainComments := true } ⟨loopLikeNames, none⟩ =
        .ok b) ∧
    (Block.ofSource Grammar.first (.ofString "To = 1")).isOk = true ∧
    (Block.ofSource Grammar.second (.ofString "To = 1")).isOk = false := by
  refine ⟨?_, by decide +kernel, by decide +kernel⟩
  have counted : ((Block.ofSource { Grammar.first with retainComments := true }
      ⟨loopLikeNames, none⟩).map fun b => b.statements.length).toOption = some 4 := by
    decide +kernel
  have noLoop : ∀ t ∈ (TokenStream.ofSource { Grammar.first with retainComments := true }
      ⟨loopLikeNames, none⟩).tokens,
      t.kind = .identifier → lowerAscii t.lexeme ∉ Grammar.loopKeywords.map (·.1) := by
    decide +kernel
  cases parsed : Block.ofSource { Grammar.first with retainComments := true }
      ⟨loopLikeNames, none⟩ with
  | error e =>
    rw [parsed] at counted
    cases counted
  | ok b =>
    rw [parsed] at counted
    exact ⟨b, rfl, Option.some.inj counted,
      later_version_accepts true ⟨loopLikeNames, none⟩ b parsed noLoop⟩

end InstallScript
