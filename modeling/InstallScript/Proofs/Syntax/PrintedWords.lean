import InstallScript.Proofs.Syntax.Written

/-!
The printed text of an expression, word by word. Which character may come behind a word depends on
the kind of its token alone (`MayFollow`), and a text in which this holds of all words is read as
their tokens, each at its place (`TokenStream.tokensFrom_legible`). A text like this stays one when
a parenthesis is left out, as long as it is none that opens the arguments of a call
(`Legible.without_opening`, `Legible.without_closing`).
-/

namespace InstallScript

/-! ## Words and blanks -/

/-- A part of a printed text: a blank, or a lexeme with the token that is read from it. -/
inductive Piece
  | blank
  | word (lexeme : List Char) (mark : Mark)

namespace Piece

/-- The characters of a part. -/
def text : Piece → List Char
  | blank => [' ']
  | word lexeme _ => lexeme

/-- The token of a part, if it has one. -/
def marks : Piece → List Mark
  | blank => []
  | word _ mark => [mark]

end Piece

/-- The text of several parts. -/
def piecesText (ps : List Piece) : List Char := ps.flatMap Piece.text

/-- The tokens of several parts. -/
def piecesMarks (ps : List Piece) : List Mark := ps.flatMap Piece.marks

theorem piecesText_append (ps qs : List Piece) :
    piecesText (ps ++ qs) = piecesText ps ++ piecesText qs :=
  List.flatMap_append

theorem piecesMarks_append (ps qs : List Piece) :
    piecesMarks (ps ++ qs) = piecesMarks ps ++ piecesMarks qs :=
  List.flatMap_append

@[simp] theorem piecesText_word (lexeme : List Char) (mark : Mark) (ps : List Piece) :
    piecesText (.word lexeme mark :: ps) = lexeme ++ piecesText ps := rfl

@[simp] theorem piecesText_blank (ps : List Piece) :
    piecesText (.blank :: ps) = ' ' :: piecesText ps := rfl

@[simp] theorem piecesMarks_word (lexeme : List Char) (mark : Mark) (ps : List Piece) :
    piecesMarks (.word lexeme mark :: ps) = mark :: piecesMarks ps := rfl

@[simp] theorem piecesMarks_blank (ps : List Piece) :
    piecesMarks (.blank :: ps) = piecesMarks ps := rfl

/-! ## What comes behind a word -/

/-- The kinds of the tokens that an operand ends with. -/
def operandEnds : List TokenKind :=
  [.identifier, .numberLiteral, .stringLiteral, .boolLiteral, .rightParen]

/-- The kinds of the tokens that stand right in front of an operand. -/
def operandOpeners : List TokenKind := [.leftParen, .minus, .assign]

/-- The first character of a text. The end of the text counts as a closing parenthesis. -/
def nextChar (cs : List Char) : Char := cs.headD ')'

/-- A character may come right behind a token of a kind in a printed expression. -/
def MayFollow (kind : TokenKind) (c : Char) : Prop :=
  c = ' ' ∨ (c ∈ [')', ','] ∧ kind ∈ operandEnds) ∨ (c ∈ ['(', '='] ∧ kind = .identifier) ∨
    (c ≠ '=' ∧ kind ∈ operandOpeners)

instance (kind : TokenKind) (c : Char) : Decidable (MayFollow kind c) := by
  unfold MayFollow
  infer_instance

/-- A text of parts goes on with the first of them. -/
theorem nextChar_pieces {p : Piece} (written : p.text ≠ []) (ps : List Piece) (rest : List Char) :
    nextChar (piecesText (p :: ps) ++ rest) = nextChar p.text := by
  rw [piecesText, List.flatMap_cons, List.append_assoc]
  cases textEq : p.text with
  | nil => exact absurd textEq written
  | cons c cs => rfl

/-- What follows an opening parenthesis may as well stand in its place, unless the parenthesis opens
the arguments of a call. -/
theorem MayFollow.without_opening {kind : TokenKind} {c : Char} (before : MayFollow kind '(')
    (behind : MayFollow .leftParen c) (grouping : kind ≠ .identifier) : MayFollow kind c := by
  have opener : kind ∈ operandOpeners := by simpa [MayFollow, grouping] using before
  have other : c ≠ '=' := by
    rintro rfl
    exact absurd behind (by decide)
  exact .inr (.inr (.inr ⟨other, opener⟩))

/-- What follows a closing parenthesis may as well stand in its place. -/
theorem MayFollow.without_closing {kind : TokenKind} {c : Char} (before : MayFollow kind ')')
    (behind : MayFollow .rightParen c) : MayFollow kind c := by
  have closes : c = ' ' ∨ c ∈ [')', ','] := by
    simpa [MayFollow, operandEnds, operandOpeners] using behind
  have ends : kind ∈ operandEnds ∨ kind ∈ operandOpeners := by simpa [MayFollow] using before
  rcases closes with blank | closes
  · exact .inl blank
  rcases ends with ends | opener
  · exact .inr (.inl ⟨closes, ends⟩)
  · refine .inr (.inr (.inr ⟨?_, opener⟩))
    rintro rfl
    exact absurd closes (by decide)

/-- What may follow no operand and no opening sign is a blank. -/
theorem MayFollow.eq_blank {kind : TokenKind} {c : Char} (follows : MayFollow kind c)
    (other : kind ∉ .identifier :: (operandEnds ++ operandOpeners)) : c = ' ' := by
  simp only [List.mem_cons, List.mem_append, not_or] at other
  rcases follows with blank | ⟨-, ends⟩ | ⟨-, name⟩ | ⟨-, opener⟩
  · exact blank
  · exact absurd ends other.2.1
  · exact absurd name other.1
  · exact absurd opener other.2.2

theorem Apart.of_nextChar {rest : List Char} (member : nextChar rest ∈ separators) :
    Apart rest := by
  cases rest with
  | nil => exact nofun
  | cons c rest => exact .cons member

/-- What may follow an operand is apart from it. -/
theorem MayFollow.apart {kind : TokenKind} {rest : List Char}
    (follows : MayFollow kind (nextChar rest)) (ends : kind ∈ operandEnds) : Apart rest := by
  have other : kind ∉ operandOpeners := by
    revert ends
    cases kind <;> decide
  refine .of_nextChar ?_
  generalize nextChar rest = c at follows
  rcases follows with rfl | ⟨member, -⟩ | ⟨member, -⟩ | ⟨-, opener⟩
  · decide
  · revert member
    simp only [List.mem_cons, List.not_mem_nil, or_false]
    rintro (rfl | rfl) <;> decide
  · revert member
    simp only [List.mem_cons, List.not_mem_nil, or_false]
    rintro (rfl | rfl) <;> decide
  · exact absurd opener other

section

variable {g : Grammar}

/-- A lexeme is read as its token wherever it is followed by what may follow it. A parenthesis is
written as such. -/
structure SoundWord (g : Grammar) (lexeme : List Char) (mark : Mark) : Prop where
  head : ∃ c cs, lexeme = c :: cs ∧ isGap c = false
  opening : mark.kind = .leftParen → lexeme = ['(']
  closing : mark.kind = .rightParen → lexeme = [')']
  reads : ∀ rest, MayFollow mark.kind (nextChar rest) → Reads g (lexeme ++ rest) [mark] rest

/-- The parts of a text are read one after another in front of a further text. -/
inductive Legible (g : Grammar) : List Piece → List Char → Prop
  | nil {rest : List Char} : Legible g [] rest
  | blank {ps : List Piece} {rest : List Char} (more : Legible g ps rest) :
    Legible g (.blank :: ps) rest
  | word {lexeme : List Char} {mark : Mark} {ps : List Piece} {rest : List Char}
      (sound : SoundWord g lexeme mark)
      (follows : MayFollow mark.kind (nextChar (piecesText ps ++ rest)))
      (more : Legible g ps rest) : Legible g (.word lexeme mark :: ps) rest

namespace Legible

variable {ps qs : List Piece} {lexeme rest : List Char} {mark : Mark}

theorem append (first : Legible g ps (piecesText qs ++ rest)) (second : Legible g qs rest) :
    Legible g (ps ++ qs) rest := by
  generalize ahead : piecesText qs ++ rest = more at first
  induction first with
  | nil => exact second
  | blank _ ih => exact .blank (ih ahead)
  | word sound follows _ ih =>
    subst ahead
    rw [List.cons_append]
    refine .word sound ?_ (ih rfl)
    rwa [piecesText_append, List.append_assoc]

/-- The only word of a text. -/
theorem single (sound : SoundWord g lexeme mark) (follows : MayFollow mark.kind (nextChar rest)) :
    Legible g [.word lexeme mark] rest :=
  .word sound follows .nil

/-- No part is empty. -/
theorem part_ne_nil {p : Piece} (legible : Legible g (p :: ps) rest) : p.text ≠ [] := by
  cases legible with
  | blank _ => exact List.cons_ne_nil _ _
  | word sound _ _ =>
    obtain ⟨c, cs, eq, -⟩ := sound.head
    exact eq ▸ List.cons_ne_nil _ _

theorem behind (legible : Legible g (ps ++ qs) rest) : Legible g qs rest := by
  induction ps with
  | nil => exact legible
  | cons p ps ih =>
    cases legible with
    | blank more => exact ih more
    | word _ _ more => exact ih more

/-- A word that stands in the middle can be left out if what follows it may follow the word in front
of it. -/
theorem without (legible : Legible g (ps ++ .word lexeme mark :: qs) rest)
    (instead : ∀ m, (piecesMarks ps).getLast? = some m → MayFollow m.kind (nextChar lexeme) →
      MayFollow m.kind (nextChar (piecesText qs ++ rest))) : Legible g (ps ++ qs) rest := by
  induction ps with
  | nil =>
    cases legible with
    | word _ _ more => exact more
  | cons p ps ih =>
    have last {m : Mark} (isLast : (piecesMarks ps).getLast? = some m) :
        (piecesMarks (p :: ps)).getLast? = some m := by
      rw [piecesMarks, List.flatMap_cons, List.getLast?_append]
      exact Option.or_eq_some_iff.2 (.inl isLast)
    rw [List.cons_append] at legible ⊢
    cases legible with
    | blank more => exact .blank (ih more fun m isLast => instead m (last isLast))
    | word sound follows more =>
      refine .word sound ?_ (ih more fun m isLast => instead m (last isLast))
      cases ps with
      | nil =>
        rw [List.nil_append] at follows more
        rw [nextChar_pieces more.part_ne_nil] at follows
        exact instead _ rfl follows
      | cons p' ps =>
        rw [List.cons_append] at follows more ⊢
        rwa [nextChar_pieces more.part_ne_nil] at follows ⊢

/-- An opening parenthesis can be left out if it opens no arguments. -/
theorem without_opening (legible : Legible g (ps ++ .word lexeme mark :: qs) rest)
    (opening : mark.kind = .leftParen)
    (grouping : ∀ m, (piecesMarks ps).getLast? = some m → m.kind ≠ .identifier) :
    Legible g (ps ++ qs) rest := by
  refine legible.without fun m isLast before => ?_
  cases legible.behind with
  | word sound follows _ =>
    rw [sound.opening opening] at before
    rw [opening] at follows
    exact before.without_opening follows (grouping m isLast)

/-- A closing parenthesis can be left out. -/
theorem without_closing (legible : Legible g (ps ++ .word lexeme mark :: qs) rest)
    (closing : mark.kind = .rightParen) : Legible g (ps ++ qs) rest := by
  refine legible.without fun m _ before => ?_
  cases legible.behind with
  | word sound follows _ =>
    rw [sound.closing closing] at before
    rw [closing] at follows
    exact before.without_closing follows

end Legible

/-! ## Tokens and their places -/

/-- The tokens of a text, each with the number of characters in front of it, if there are some in
front of the text. -/
def placedMarks : Nat → List Piece → List (Mark × Nat)
  | _, [] => []
  | n, .blank :: ps => placedMarks (n + 1) ps
  | n, .word lexeme mark :: ps => (mark, n) :: placedMarks (n + lexeme.length) ps

/-- The token with a given number in the text is that of a word. -/
theorem placedMarks_split {n : Nat} {ps : List Piece} {front back : List (Mark × Nat)}
    {mark : Mark} {place : Nat} (split : placedMarks n ps = front ++ (mark, place) :: back) :
    ∃ before lexeme after, ps = before ++ .word lexeme mark :: after ∧
      place = n + (piecesText before).length ∧ piecesMarks before = front.map (·.1) ∧
      placedMarks (place + lexeme.length) after = back := by
  induction ps generalizing n front with
  | nil => cases front <;> cases split
  | cons p ps ih =>
    cases p with
    | blank =>
      obtain ⟨before, lexeme, after, rfl, rfl, marks, rest⟩ := ih split
      refine ⟨.blank :: before, lexeme, after, rfl, ?_, marks, rest⟩
      rw [piecesText_blank, List.length_cons]
      omega
    | word first mark' =>
      cases front with
      | nil =>
        obtain ⟨same, rest⟩ := List.cons.inj split
        obtain ⟨rfl, rfl⟩ := Prod.mk.inj same
        exact ⟨[], first, ps, rfl, rfl, rfl, rest⟩
      | cons m front =>
        obtain ⟨rfl, rest⟩ := List.cons.inj split
        obtain ⟨before, lexeme, after, rfl, rfl, marks, rest⟩ := ih rest
        refine ⟨.word first mark' :: before, lexeme, after, rfl, ?_, ?_, rest⟩
        · rw [piecesText_word, List.length_append]
          omega
        · rw [piecesMarks_word, marks, List.map_cons]

namespace TokenStream

variable {file : Option String} {lines : List String}

/-- Nothing but white space is read as no token. -/
theorem blanks_of_reads {cs rest : List Char} (reads : Reads g cs [] rest) :
    ∃ blanks, cs = blanks ++ rest ∧ ∀ c ∈ blanks, isGap c = true := by
  generalize none : ([] : List Mark) = ms at reads
  induction reads with
  | refl => exact ⟨[], rfl, nofun⟩
  | gap blank _ ih =>
    obtain ⟨blanks, rfl, areBlank⟩ := ih none
    exact ⟨_ :: blanks, rfl, List.forall_mem_cons.2 ⟨blank, areBlank⟩⟩
  | token => cases none

/-- A lexeme that is read at the head of a text becomes a token there. -/
theorem tokensFrom_lexeme {lexeme rest : List Char} {mark : Mark} {steps : Nat}
    (head : ∃ c cs, lexeme = c :: cs ∧ isGap c = false)
    (reads : Reads g (lexeme ++ rest) [mark] rest) (place : Location)
    (bound : (lexeme ++ rest).length < steps) :
    ∃ t steps', rest.length < steps' ∧ t.mark = mark ∧ t.span.start = place ∧
      tokensFrom g file lines steps place (lexeme ++ rest) =
        cons t (tokensFrom g file lines steps' (place.after lexeme) rest) := by
  obtain ⟨c, cs, rfl, start⟩ := head
  rw [List.cons_append] at reads bound ⊢
  generalize textEq : cs ++ rest = text at reads bound ⊢
  generalize only : [mark] = ms at reads
  generalize whole : c :: text = all at reads
  cases reads with
  | refl => cases only
  | gap blank _ =>
    cases whole
    exact absurd blank (by simp [start])
  | @token _ taken left _ kind value ms _ found kept more =>
    obtain ⟨rfl, rfl⟩ := List.cons.inj whole
    obtain ⟨rfl, rfl⟩ := List.cons.inj only
    obtain ⟨blanks, rfl, areBlank⟩ := blanks_of_reads more
    obtain rfl : cs = taken ++ blanks :=
      List.append_cancel_right (textEq.trans (List.append_assoc ..).symm)
    rw [List.length_cons, List.length_append, List.length_append] at bound
    obtain ⟨steps, rfl⟩ := Nat.exists_eq_add_of_le' (show 2 ≤ steps by omega)
    refine ⟨⟨kind, value, String.ofList (c :: taken), ⟨place, place.after (c :: taken), file⟩⟩,
      steps + 1, by omega, rfl, rfl, ?_⟩
    rw [tokensFrom_token start found kept, tokensFrom_blanks _ areBlank, ← Location.after_append,
      List.cons_append]

/-- A text of words has their tokens, each at its place. -/
theorem tokensFrom_legible {ps : List Piece} (legible : Legible g ps []) :
    ∀ (steps : Nat) (place : Location), (piecesText ps).length < steps →
      ∃ tokens stop, tokensFrom g file lines steps place (piecesText ps) =
          ⟨tokens ++ [endToken file stop], .finished⟩ ∧
        tokens.map (fun t => (t.mark, t.span.start.offset)) = placedMarks place.offset ps := by
  generalize none : ([] : List Char) = rest at legible
  induction legible with
  | nil =>
    intro steps place bound
    obtain ⟨steps, rfl⟩ := Nat.exists_eq_add_of_le' (show 1 ≤ steps by omega)
    exact ⟨[], _, rfl, rfl⟩
  | blank _ ih =>
    intro steps place bound
    rw [piecesText_blank, List.length_cons] at bound
    obtain ⟨steps, rfl⟩ := Nat.exists_eq_add_of_le' (show 1 ≤ steps by omega)
    obtain ⟨tokens, stop, eq, marks⟩ := ih none (steps + 1) (place.next ' ') (by omega)
    rw [Location.offset_next] at marks
    refine ⟨tokens, stop, ?_, marks⟩
    rw [← eq]
    exact tokensFrom_blanks [' '] (List.forall_mem_singleton.2 rfl) steps place _
  | @word lexeme mark ps rest sound follows _ ih =>
    subst none
    intro steps place bound
    rw [List.append_nil] at follows
    rw [piecesText_word] at bound ⊢
    obtain ⟨t, steps', enough, markEq, start, eq⟩ :=
      tokensFrom_lexeme sound.head (sound.reads _ follows) place bound
    obtain ⟨tokens, stop, others, marks⟩ := ih rfl steps' (place.after lexeme) enough
    refine ⟨t :: tokens, stop, ?_, ?_⟩
    · rw [eq, others]
      rfl
    · rw [Location.offset_after] at marks
      rw [List.map_cons, marks, markEq, start]
      rfl

end TokenStream

end

end InstallScript
