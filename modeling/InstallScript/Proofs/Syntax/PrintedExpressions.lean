import InstallScript.Proofs.Syntax.PrintedWords

/-!
The parts of a printed expression. Every expression that can be written is a text of words and
blanks in which each word may be followed by what follows it (`Expr.inPieces`), so what is known of
such texts holds of it.
-/

namespace InstallScript

/-! ## Words of expressions -/

theorem Literal.text_head {value : Literal} (writable : value.Writable) :
    ∃ c cs, value.text.toList = c :: cs ∧ isGap c = false := by
  cases value with
  | number n =>
    obtain ⟨whole, fraction, mark, exponent, text, numeral, -⟩ := Number.text_spelled writable
    obtain ⟨d, ds, rfl⟩ := List.exists_cons_of_ne_nil numeral.wholeNonempty
    exact ⟨d, _, text, test_of_isDigit (numeral.wholeDigits d List.mem_cons_self) (by decide)⟩
  | string s => exact ⟨'"', _, String.toList_ofList, rfl⟩
  | bool b => cases b <;> exact ⟨_, _, rfl, rfl⟩

theorem Literal.mark_ends (value : Literal) : value.mark.kind ∈ operandEnds := by
  cases value with
  | number n => exact (by decide : TokenKind.numberLiteral ∈ operandEnds)
  | string s => exact (by decide : TokenKind.stringLiteral ∈ operandEnds)
  | bool b => exact (by decide : TokenKind.boolLiteral ∈ operandEnds)

theorem nextChar_eq_blank {rest : List Char} (blank : nextChar rest = ' ') :
    ∃ more, rest = ' ' :: more := by
  cases rest with
  | nil => exact absurd blank (by decide)
  | cons c rest =>
    obtain rfl : c = ' ' := blank
    exact ⟨rest, rfl⟩

section

variable {g : Grammar}

namespace SoundWord

theorem symbol {c : Char} {kind : TokenKind}
    (member : (c, kind) ∈
      [('(', TokenKind.leftParen), (')', .rightParen), (',', .comma), ('-', .minus)]) :
    SoundWord g [c] (.word kind) := by
  have reads := Reads.symbol (g := g) member
  simp only [List.mem_cons, Prod.mk.injEq, List.not_mem_nil, or_false] at member
  rcases member with ⟨rfl, rfl⟩ | ⟨rfl, rfl⟩ | ⟨rfl, rfl⟩ | ⟨rfl, rfl⟩
  · exact ⟨⟨'(', [], rfl, rfl⟩, fun _ => rfl, nofun, fun rest _ => reads rest⟩
  · exact ⟨⟨')', [], rfl, rfl⟩, nofun, fun _ => rfl, fun rest _ => reads rest⟩
  · exact ⟨⟨',', [], rfl, rfl⟩, nofun, nofun, fun rest _ => reads rest⟩
  · exact ⟨⟨'-', [], rfl, rfl⟩, nofun, nofun, fun rest _ => reads rest⟩

theorem assign : SoundWord g ['='] (.word .assign) := by
  refine ⟨⟨'=', [], rfl, rfl⟩, nofun, nofun, fun rest follows => .assign fun double => ?_⟩
  cases rest with
  | nil => cases double
  | cons c rest =>
    cases double
    exact absurd follows (by decide : ¬ MayFollow .assign '=')

/-- A name, a literal or another word that is apart from what follows an operand. -/
theorem operand {text : String} {mark : Mark} (spells : Spells g text [mark])
    (head : ∃ c cs, text.toList = c :: cs ∧ isGap c = false) (ends : mark.kind ∈ operandEnds)
    (other : mark.kind ≠ .rightParen) : SoundWord g text.toList mark := by
  refine ⟨head, fun opening => ?_, fun closing => absurd closing other,
    fun rest follows => spells rest (follows.apart ends)⟩
  rw [opening] at ends
  exact absurd ends (by decide)

theorem name {name : String} (isName : IsName g name) :
    SoundWord g name.toList (.of .identifier (.text name)) := by
  obtain ⟨c, cs, eq, start⟩ := isName.start
  exact operand (spells_name isName) ⟨c, cs, eq, (not_of_isNameStart start).2.2.2.2.2⟩
    List.mem_cons_self nofun

theorem literal (standard : g.Standard) {value : Literal} (writable : value.Writable) :
    SoundWord g value.text.toList value.mark := by
  refine operand (spells_literal standard writable) (Literal.text_head writable) value.mark_ends ?_
  cases value <;> nofun

theorem notWord (standard : g.Standard) : SoundWord g "not".toList (.word .notWord) := by
  refine ⟨⟨'n', _, rfl, rfl⟩, nofun, nofun, fun rest follows => ?_⟩
  obtain ⟨more, rfl⟩ := nextChar_eq_blank (follows.eq_blank (by decide))
  have word : Spells g "not" [.word .notWord] := spells_core standard
  exact word _ (.space more)

theorem operator (standard : g.Standard) (o : BinaryOperator) :
    SoundWord g o.symbol.toList (.word o.kind) := by
  by_cases isMinus : o = .minus
  · subst isMinus
    exact symbol (by decide)
  refine ⟨?_, ?_, ?_, fun rest follows => ?_⟩
  · cases o <;> exact ⟨_, _, rfl, rfl⟩
  · cases o <;> nofun
  · cases o <;> nofun
  · have other : o.kind ∉ .identifier :: (operandEnds ++ operandOpeners) := by
      revert isMinus
      cases o <;> decide
    obtain ⟨more, rfl⟩ := nextChar_eq_blank (follows.eq_blank other)
    exact reads_operator standard o more

end SoundWord

/-! ## Texts of words -/

/-- What may come behind an operand. -/
def Closes (rest : List Char) : Prop := nextChar rest ∈ [' ', ')', ',']

theorem Closes.follows {kind : TokenKind} {rest : List Char} (closes : Closes rest)
    (ends : kind ∈ operandEnds) : MayFollow kind (nextChar rest) := by
  rcases List.mem_cons.1 closes with blank | other
  · exact .inl blank
  · exact .inr (.inl ⟨other, ends⟩)

theorem Closes.blank (rest : List Char) : Closes (' ' :: rest) := List.mem_cons_self

theorem Closes.parenthesis (rest : List Char) : Closes (')' :: rest) :=
  List.mem_cons_of_mem _ List.mem_cons_self

/-- A text is one of words and blanks with the given tokens, which can be read wherever an operand
may stand. -/
structure InPieces (g : Grammar) (text : String) (ms : List Mark) : Prop where
  ahead : NoSignAhead text
  parts : ∃ ps, piecesText ps = text.toList ∧ piecesMarks ps = ms ∧
    ∀ rest, Closes rest → Legible g ps rest

/-- What opens an operand may be followed by one. -/
theorem NoSignAhead.follows {text : String} {kind : TokenKind} (ahead : NoSignAhead text)
    (opener : kind ∈ operandOpeners) (rest : List Char) :
    MayFollow kind (nextChar (text.toList ++ rest)) := by
  obtain ⟨c, cs, eq, other⟩ := ahead
  rw [eq]
  exact .inr (.inr (.inr ⟨other, opener⟩))

namespace InPieces

variable {text : String} {ms : List Mark}

theorem operand {mark : Mark} (ahead : NoSignAhead text) (sound : SoundWord g text.toList mark)
    (ends : mark.kind ∈ operandEnds) : InPieces g text [mark] :=
  ⟨ahead, [.word text.toList mark], List.append_nil _, rfl,
    fun _ closes => .single sound (closes.follows ends)⟩

theorem enclosed (inner : InPieces g text ms) (tightness least : Nat) :
    InPieces g (parenthesized tightness least text) (enclosed tightness least ms) := by
  unfold parenthesized InstallScript.enclosed
  by_cases loose : tightness < least
  · rw [if_pos loose, if_pos loose]
    obtain ⟨ahead, ps, textEq, rfl, legible⟩ := inner
    refine ⟨(NoSignAhead.append ⟨'(', _, rfl, by decide⟩ _).append _,
      .word ['('] (.word .leftParen) :: (ps ++ [.word [')'] (.word .rightParen)]), ?_, ?_, ?_⟩
    · rw [piecesText_word, piecesText_append, textEq, String.toList_append, String.toList_append]
      rfl
    · rw [piecesMarks_word, piecesMarks_append]
      rfl
    · intro rest closes
      refine .word (.symbol (by decide)) ?_ (.append (legible _ (.parenthesis rest))
        (.single (.symbol (by decide)) (closes.follows (by decide))))
      rw [piecesText_append, textEq, List.append_assoc]
      exact ahead.follows (by decide) _
  · rw [if_neg loose, if_neg loose]
    exact inner

theorem not (standard : g.Standard) (inner : InPieces g text ms) :
    InPieces g ("not " ++ text) (.word .notWord :: ms) := by
  obtain ⟨ahead, ps, textEq, rfl, legible⟩ := inner
  refine ⟨NoSignAhead.append ⟨'n', _, rfl, by decide⟩ _,
    .word "not".toList (.word .notWord) :: .blank :: ps, ?_, rfl, ?_⟩
  · rw [piecesText_word, piecesText_blank, textEq, String.toList_append]
    rfl
  · exact fun rest closes => .word (.notWord standard) (.inl rfl) (.blank (legible rest closes))

theorem minus (inner : InPieces g text ms) : InPieces g ("-" ++ text) (.word .minus :: ms) := by
  obtain ⟨ahead, ps, textEq, rfl, legible⟩ := inner
  refine ⟨NoSignAhead.append ⟨'-', _, rfl, by decide⟩ _, .word ['-'] (.word .minus) :: ps, ?_, rfl,
    fun rest closes => .word (.symbol (by decide)) ?_ (legible rest closes)⟩
  · rw [piecesText_word, textEq, String.toList_append]
    rfl
  · rw [textEq]
    exact ahead.follows (by decide) _

theorem binary (standard : g.Standard) (o : BinaryOperator) {text' : String} {ms' : List Mark}
    (left : InPieces g text ms) (right : InPieces g text' ms') :
    InPieces g (text ++ " " ++ o.symbol ++ " " ++ text') (ms ++ .word o.kind :: ms') := by
  obtain ⟨ahead, ps, textEq, rfl, legible⟩ := left
  obtain ⟨-, qs, textEq', rfl, legible'⟩ := right
  refine ⟨(ahead.append _ |>.append _ |>.append _ |>.append _),
    ps ++ .blank :: .word o.symbol.toList (.word o.kind) :: .blank :: qs, ?_, ?_, ?_⟩
  · rw [piecesText_append, piecesText_blank, piecesText_word, piecesText_blank, textEq, textEq']
    simp only [String.toList_append, List.append_assoc]
    rfl
  · rw [piecesMarks_append]
    rfl
  · intro rest closes
    refine .append (legible _ (.blank _)) (.blank (.word (.operator standard o) (.inl rfl) ?_))
    exact .blank (legible' rest closes)

/-- A named argument. -/
theorem named {name : String} (isName : IsName g name) (value : InPieces g text ms) :
    InPieces g (name ++ "=" ++ text) (.of .identifier (.text name) :: .word .assign :: ms) := by
  obtain ⟨ahead, ps, textEq, rfl, legible⟩ := value
  refine ⟨(isName.noSignAhead.append _).append _,
    .word name.toList (.of .identifier (.text name)) :: .word ['='] (.word .assign) :: ps,
    ?_, rfl, fun rest closes => ?_⟩
  · rw [piecesText_word, piecesText_word, textEq, String.toList_append, String.toList_append,
      List.append_assoc]
    rfl
  · refine .word (.name isName) (.inr (.inr (.inl ⟨?_, rfl⟩))) (.word .assign ?_
      (legible rest closes))
    · exact List.mem_cons_of_mem _ List.mem_cons_self
    · rw [textEq]
      exact ahead.follows (by decide) _

/-- Operands with commas between them, at least one. -/
theorem intercalate {texts : List String} {groups : List (List Mark)}
    (each : List.Forall₂ (InPieces g) texts groups) (some : texts ≠ []) :
    InPieces g (", ".intercalate texts) ([.word .comma].intercalate groups) := by
  induction each with
  | nil => exact absurd rfl some
  | @cons text ms texts groups first others ih =>
    cases others with
    | nil =>
      rw [List.intercalate_singleton]
      exact first
    | @cons text' ms' texts groups second others =>
      obtain ⟨ahead, ps, textEq, rfl, legible⟩ := first
      obtain ⟨-, qs, textEq', marks, legible'⟩ := ih nofun
      have textsEq : (", ".intercalate (text :: text' :: texts)).toList =
          text.toList ++ ',' :: ' ' :: (", ".intercalate (text' :: texts)).toList := by
        rw [String.toList_intercalate, String.toList_intercalate, List.map_cons, List.map_cons,
          List.intercalate_cons_cons, List.append_assoc]
        rfl
      rw [List.intercalate_cons_cons, ← marks]
      refine ⟨?_, ps ++ .word [','] (.word .comma) :: .blank :: qs, ?_, ?_, ?_⟩
      · obtain ⟨c, cs, eq, other⟩ := ahead
        exact ⟨c, _, by rw [textsEq, eq]; rfl, other⟩
      · rw [textsEq, piecesText_append, piecesText_word, piecesText_blank, textEq, textEq']
        rfl
      · rw [piecesMarks_append, piecesMarks_word, piecesMarks_blank, List.append_assoc]
        rfl
      · intro rest closes
        refine .append (legible _ ?_) (.word (.symbol (by decide)) (.inl rfl)
          (.blank (legible' rest closes)))
        exact List.mem_cons_of_mem _ (List.mem_cons_of_mem _ List.mem_cons_self)

/-- A call. -/
theorem call {name : String} (isName : IsName g name) {texts : List String}
    {groups : List (List Mark)} (each : List.Forall₂ (InPieces g) texts groups) :
    InPieces g (name ++ "(" ++ ", ".intercalate texts ++ ")")
      (.of .identifier (.text name) :: .word .leftParen ::
        ([.word .comma].intercalate groups ++ [.word .rightParen])) := by
  have inside : ∃ ps, piecesText ps = (", ".intercalate texts).toList ∧
      piecesMarks ps = [.word .comma].intercalate groups ∧
      (∀ rest, MayFollow .leftParen (nextChar (piecesText ps ++ ')' :: rest))) ∧
      ∀ rest, Closes rest → Legible g ps rest := by
    cases each with
    | nil =>
      have empty : MayFollow .leftParen ')' := by decide
      exact ⟨[], rfl, rfl, fun _ => empty, fun _ _ => .nil⟩
    | cons first others =>
      obtain ⟨ahead, ps, textEq, marks, legible⟩ := intercalate (.cons first others) nofun
      exact ⟨ps, textEq, marks, fun rest => textEq ▸ ahead.follows (by decide) _, legible⟩
  obtain ⟨ps, textEq, marks, follows, legible⟩ := inside
  refine ⟨(isName.noSignAhead.append _ |>.append _ |>.append _),
    .word name.toList (.of .identifier (.text name)) :: .word ['('] (.word .leftParen) ::
      (ps ++ [.word [')'] (.word .rightParen)]), ?_, ?_, fun rest closes => ?_⟩
  · rw [piecesText_word, piecesText_word, piecesText_append, textEq]
    simp only [String.toList_append, List.append_assoc]
    rfl
  · rw [piecesMarks_word, piecesMarks_word, piecesMarks_append, marks]
    rfl
  · refine .word (.name isName) (.inr (.inr (.inl ⟨List.mem_cons_self, rfl⟩)))
      (.word (.symbol (by decide)) ?_ (.append (legible _ (.parenthesis rest))
        (.single (.symbol (by decide)) (closes.follows (by decide)))))
    rw [piecesText_append, List.append_assoc]
    exact follows rest

end InPieces

/-! ## Expressions -/

mutual

/-- The printed text of an expression is one of words and blanks. -/
theorem Expr.inPieces (standard : g.Standard) : ∀ {e : Expr}, e.Writable g →
    InPieces g e.text e.marks
  | .literal _ value, writable =>
    .operand (Literal.noSignAhead writable) (.literal standard writable) value.mark_ends
  | .var _ _, writable =>
    .operand (IsName.noSignAhead writable) (.name writable) List.mem_cons_self
  | .call c, writable => Call.inPieces standard writable
  | .unary _ o e, writable => by
    have spelled : InPieces g e.text e.marks := Expr.inPieces standard writable
    have inner := spelled.enclosed e.tightness UnaryOperator.precedence
    cases o with
    | not => exact inner.not standard
    | minus => exact inner.minus
  | .binary _ o _ _, writable => by
    have left := Expr.inPieces standard writable.1
    have right := Expr.inPieces standard writable.2
    exact (left.enclosed _ _).binary standard o (right.enclosed _ _)

theorem Call.inPieces (standard : g.Standard) : ∀ {c : Call}, c.Writable g →
    InPieces g c.text c.marks
  | .mk _ _ _ _, ⟨isName, argumentsWritable, keywordsWritable⟩ =>
    .call isName (List.rel_append (exprs_inPieces standard argumentsWritable)
      (keywords_inPieces standard keywordsWritable))

theorem exprs_inPieces (standard : g.Standard) : ∀ {es : List Expr}, exprsWritable g es →
    List.Forall₂ (InPieces g) (exprTexts es) (exprMarks es)
  | [], _ => .nil
  | _ :: _, ⟨first, others⟩ =>
    .cons (Expr.inPieces standard first) (exprs_inPieces standard others)

theorem keywords_inPieces (standard : g.Standard) : ∀ {ks : List KeywordArgument},
    keywordsWritable g ks → List.Forall₂ (InPieces g) (keywordTexts ks) (keywordMarks ks)
  | [], _ => .nil
  | .mk _ _ _ :: _, ⟨_, isName, writable, others⟩ =>
    .cons (.named isName (Expr.inPieces standard writable)) (keywords_inPieces standard others)

end

end

end InstallScript
