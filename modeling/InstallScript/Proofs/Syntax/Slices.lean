import InstallScript.Proofs.Syntax.Layout

/-!
The tokens of a stretch of a text. What is found at the head of a text is found at the head of every
beginning of it that has all of it (`scan_of_front`), for it is as long as it can be. So from the
start of one token to the end of another a text has the tokens that the whole text has there
(`TokenStream.tokensFrom_cut`).
-/

namespace InstallScript

/-! ## The head of a beginning -/

section

variable {g : Grammar} {xs ys : List Char} {kind : TokenKind} {value : TokenValue} {length : Nat}

theorem head_of_front (front : xs <+: ys) {c : Char} (head : xs.head? = some c) :
    ys.head? = some c := by
  obtain ⟨more, rfl⟩ := front
  rw [List.head?_append, head, Option.some_or]

theorem takeWhile_of_front {p : Char → Bool} (front : xs <+: ys)
    (fits : (ys.takeWhile p).length ≤ xs.length) : xs.takeWhile p = ys.takeWhile p := by
  obtain ⟨more, rfl⟩ := front
  induction xs with
  | nil => exact (List.length_eq_zero_iff.1 (Nat.le_zero.1 fits)).symm
  | cons x xs ih =>
    rw [List.cons_append] at fits ⊢
    cases test : p x with
    | false =>
      rw [List.takeWhile_cons_of_neg (by simp [test]), List.takeWhile_cons_of_neg (by simp [test])]
    | true =>
      rw [List.takeWhile_cons_of_pos test, List.length_cons, List.length_cons] at fits
      rw [List.takeWhile_cons_of_pos test, List.takeWhile_cons_of_pos test, ih (by omega)]

/-! ### Comments -/

theorem scanLineComment_of_front (front : xs <+: ys)
    (found : scanLineComment ys = .token kind value length) (fits : length ≤ xs.length + 1) :
    scanLineComment xs = .token kind value length := by
  unfold scanLineComment at found ⊢
  dsimp only at found ⊢
  cases found
  rw [takeWhile_of_front front (by omega)]

/-- The end of the comments that are open is found without what is behind it. -/
theorem EndsComments.of_length : ∀ {depth : Nat} {cs : List Char} {length : Nat},
    commentLength? depth cs = some length →
      ∃ body rest, cs = body ++ rest ∧ length = body.length ∧ EndsComments depth body
  | 0, cs, _, found => by
    rw [commentLength?] at found
    cases found
    exact ⟨[], cs, rfl, rfl, .none⟩
  | depth + 1, [], _, found => by
    rw [commentLength?] at found
    cases found
  | depth + 1, c :: cs, length, found => by
    rcases mark_cases c cs with ⟨more, rfl, rfl⟩ | ⟨more, rfl, rfl⟩ | noMark
    · rw [commentLength?, Option.map_eq_some_iff] at found
      obtain ⟨inner, found, rfl⟩ := found
      obtain ⟨body, rest, rfl, rfl, ends⟩ := EndsComments.of_length found
      exact ⟨'/' :: '*' :: body, rest, rfl, rfl, .opening ends⟩
    · rw [commentLength?, Option.map_eq_some_iff] at found
      obtain ⟨inner, found, rfl⟩ := found
      obtain ⟨body, rest, rfl, rfl, ends⟩ := EndsComments.of_length found
      exact ⟨'*' :: '/' :: body, rest, rfl, rfl, .closing ends⟩
    · rw [commentLength?_plain noMark, Option.map_eq_some_iff] at found
      obtain ⟨inner, found, rfl⟩ := found
      obtain ⟨body, rest, rfl, rfl, ends⟩ := EndsComments.of_length found
      refine ⟨c :: body, rest, rfl, rfl, .other (fun d head => noMark d ?_) ends⟩
      exact head_of_front (List.prefix_append body rest) head
termination_by _ cs => cs.length

theorem scanBlockComment_of_front (front : xs <+: ys)
    (found : scanBlockComment ys = .token kind value length) (fits : length ≤ xs.length + 2) :
    scanBlockComment xs = .token kind value length := by
  unfold scanBlockComment at found
  split at found
  · rename_i inner ends
    cases found
    obtain ⟨body, rest, rfl, rfl, closes⟩ := EndsComments.of_length ends
    obtain ⟨more, rfl⟩ := List.prefix_of_prefix_length_le (List.prefix_append body rest) front
      (by omega)
    rw [scanBlockComment, closes.length more]
    dsimp only
    rw [List.take_append_of_le_length (Nat.sub_le _ _),
      List.take_append_of_le_length (Nat.sub_le _ _)]
  · cases found

theorem two_le_scanBlockComment (found : scanBlockComment ys = .token kind value length) :
    2 ≤ length := by
  unfold scanBlockComment at found
  split at found
  · cases found
    exact Nat.le_add_left 2 _
  · cases found

/-! ### Strings -/

theorem scanQuoted_of_front {quote : Char} (front : xs <+: ys)
    (found : scanQuoted quote ys = .token kind value length) (fits : length ≤ xs.length + 1) :
    scanQuoted quote xs = .token kind value length := by
  unfold scanQuoted at found
  split at found
  · rename_i text size closed
    cases found
    obtain ⟨body, rest, rfl, rfl, again⟩ := scanString_again ys text size closed
    obtain ⟨more, rfl⟩ := List.prefix_of_prefix_length_le (List.prefix_append body rest) front
      (by omega)
    rw [scanQuoted, again]
  · cases found
  · cases found

/-! ### Numbers -/

theorem takeFraction_of_front (front : xs <+: ys) (fits : (takeFraction ys).length ≤ xs.length) :
    takeFraction xs = takeFraction ys := by
  have shape := (takeFraction_shape ys).2
  obtain ⟨more, rfl⟩ := front
  match xs with
  | [] => exact (List.length_eq_zero_iff.1 (Nat.le_zero.1 fits)).symm
  | [c] =>
    have none : takeFraction [c] = [] := by simp [takeFraction]
    rcases shape with empty | ⟨d, ds, split, -⟩
    · rw [none, empty]
    · rw [split] at fits
      simp at fits
  | c :: d :: xs =>
    rw [List.cons_append, List.cons_append] at fits ⊢
    by_cases begins : c = '.' ∧ d.isDigit = true
    · obtain ⟨rfl, digit⟩ := begins
      rw [takeFraction, takeFraction, if_pos digit, if_pos digit] at *
      rw [takeWhile_of_front (List.prefix_append xs more)]
      simpa using fits
    · have none (cs : List Char) : takeFraction (c :: d :: cs) = [] := by
        unfold takeFraction
        split
        · rename_i split
          cases split
          exact if_neg fun digit => begins ⟨rfl, digit⟩
        · rfl
      rw [none, none]

theorem takeExponentMark_of_front (front : xs <+: ys)
    (fits : (takeExponentMark ys).length ≤ xs.length) :
    takeExponentMark xs = takeExponentMark ys := by
  obtain ⟨more, rfl⟩ := front
  match xs, more with
  | [], more => exact (List.length_eq_zero_iff.1 (Nat.le_zero.1 fits)).symm
  | [e], [] => rfl
  | [e], s :: more =>
    rw [List.singleton_append] at fits ⊢
    by_cases letter : e = 'e' ∨ e = 'E'
    · by_cases sign : s = '+' ∨ s = '-'
      · rw [takeExponentMark, if_pos letter, if_pos sign] at fits
        exact absurd fits (Nat.not_succ_le_self 1)
      · simp only [takeExponentMark, if_pos letter, if_neg sign]
    · simp only [takeExponentMark, if_neg letter]
  | e :: s :: xs, more => rfl

theorem scanNumber_of_front (front : xs <+: ys)
    (found : scanNumber ys = .token kind value length) (fits : length ≤ xs.length) :
    scanNumber xs = .token kind value length := by
  unfold scanNumber at found ⊢
  dsimp only at found ⊢
  generalize wholeEq : ys.takeWhile Char.isDigit = whole at found
  have afterWhole := front.drop whole.length
  generalize fractionEq : takeFraction (ys.drop whole.length) = fraction at found
  have afterFraction := afterWhole.drop fraction.length
  generalize markEq : takeExponentMark ((ys.drop whole.length).drop fraction.length) = mark at found
  have afterMark := afterFraction.drop mark.length
  generalize exponentEq : (if mark.isEmpty then [] else
    (((ys.drop whole.length).drop fraction.length).drop mark.length).takeWhile Char.isDigit) =
      exponent at found
  have rest := afterMark.drop exponent.length
  split at found
  · cases found
  rename_i complete
  split at found
  · cases found
  rename_i ended
  have size : length = whole.length + fraction.length + mark.length + exponent.length := by
    rw [← List.length_append, ← List.length_append, ← List.length_append]
    split at found <;> cases found
    rfl
  rw [takeWhile_of_front front (by rw [wholeEq]; omega), wholeEq,
    takeFraction_of_front afterWhole (by rw [fractionEq, List.length_drop]; omega), fractionEq,
    takeExponentMark_of_front afterFraction
      (by rw [markEq, List.length_drop, List.length_drop]; omega), markEq]
  have exponentEq' : (if mark.isEmpty then [] else
      (((xs.drop whole.length).drop fraction.length).drop mark.length).takeWhile Char.isDigit) =
        exponent := by
    rw [← exponentEq]
    split
    · rfl
    · rename_i some
      rw [if_neg some] at exponentEq
      refine takeWhile_of_front afterMark ?_
      rw [exponentEq, List.length_drop, List.length_drop, List.length_drop]
      omega
  have ended' : ¬ ((((xs.drop whole.length).drop fraction.length).drop mark.length).drop
      exponent.length).head?.any isNameStart = true := by
    intro goesOn
    obtain ⟨c, head, start⟩ := (Option.any_eq_true _ _).1 goesOn
    exact ended ((Option.any_eq_true _ _).2 ⟨c, head_of_front rest head, start⟩)
  rw [exponentEq', if_neg complete, if_neg ended', found]

/-! ### Words and symbols -/

theorem scanWord_of_front (front : xs <+: ys)
    (found : scanWord g ys = .token kind value length) (fits : length ≤ xs.length) :
    scanWord g xs = .token kind value length := by
  have size : length = (ys.takeWhile isNamePart).length := by
    unfold scanWord at found
    dsimp only at found
    split at found <;> cases found <;> rfl
  rw [← found]
  unfold scanWord
  rw [takeWhile_of_front front (by omega)]

theorem scanSymbol_of_front {c : Char} (front : xs <+: ys)
    (found : scanSymbol c ys = .token kind value length) (fits : length ≤ xs.length + 1) :
    scanSymbol c xs = .token kind value length := by
  obtain ⟨more, rfl⟩ := front
  cases xs with
  | cons d xs => exact found
  | nil =>
    cases more with
    | nil => exact found
    | cons d more =>
      rw [List.nil_append, scanSymbol] at found
      split at found
      · cases found
        exact absurd fits (by decide)
      · exact found

/-! ### All together -/

/-- What is found at the head of a text is a beginning of it. -/
theorem split_of_scan {c : Char} {cs : List Char}
    (found : scan g c cs = .token kind value length) :
    ∃ lexeme rest, cs = lexeme ++ rest ∧ length = lexeme.length + 1 := by
  unfold scan at found
  split at found
  · cases found
    exact ⟨_, _, List.takeWhile_append_dropWhile.symm, rfl⟩
  split at found
  · rename_i opens
    obtain ⟨cs, rfl⟩ := List.head?_eq_some_iff.1 opens.2
    unfold scanBlockComment at found
    split at found
    · rename_i inner ends
      obtain ⟨body, rest, split, rfl, -⟩ := EndsComments.of_length ends
      obtain rfl : cs = body ++ rest := split
      cases found
      exact ⟨'*' :: body, rest, rfl, rfl⟩
    · cases found
  split at found
  · obtain ⟨lexeme, rest, split, size, -⟩ := scanQuoted_again found
    exact ⟨lexeme, rest, split, size⟩
  split at found
  · obtain ⟨lexeme, rest, split, size, -⟩ := scanNumber_again found
    have takes := (found_of_scanNumber ‹_› found).takes
    cases lexeme with
    | nil => exact absurd takes (by simp [size])
    | cons d lexeme => exact ⟨lexeme, rest, (List.cons.inj split).2, size⟩
  split at found
  · obtain ⟨lexeme, rest, split, size, -⟩ := scanWord_again ‹_› found
    exact ⟨lexeme, rest, split, size⟩
  · obtain ⟨lexeme, rest, split, size, -⟩ := scanSymbol_again found
    exact ⟨lexeme, rest, split, size⟩

/-- What is found at the head of a text is found at the head of a beginning that has all of it. -/
theorem scan_of_front {c : Char} (front : xs <+: ys)
    (found : scan g c ys = .token kind value length) (fits : length ≤ xs.length + 1) :
    scan g c xs = .token kind value length := by
  unfold scan at found ⊢
  split at found
  · rw [if_pos ‹_›]
    exact scanLineComment_of_front front found fits
  rename_i notHash
  rw [if_neg notHash]
  split at found
  · rename_i opens
    obtain ⟨rfl, star⟩ := opens
    obtain ⟨ys, rfl⟩ := List.head?_eq_some_iff.1 star
    obtain ⟨more, split⟩ := front
    have size : 2 ≤ length := two_le_scanBlockComment found
    cases xs with
    | nil => exact absurd fits (Nat.not_le_of_lt size)
    | cons d xs =>
      obtain ⟨rfl, behind⟩ := List.cons.inj split
      rw [if_pos ⟨rfl, rfl⟩]
      exact scanBlockComment_of_front ⟨more, behind⟩ found fits
  rename_i notMarked
  rw [if_neg fun marked => notMarked ⟨marked.1, head_of_front front marked.2⟩]
  split at found
  · rw [if_pos ‹_›]
    exact scanQuoted_of_front front found fits
  rename_i notQuote
  rw [if_neg notQuote]
  have whole : c :: xs <+: c :: ys := (List.prefix_cons_inj c).2 front
  split at found
  · rw [if_pos ‹_›]
    exact scanNumber_of_front whole found fits
  rename_i notDigit
  rw [if_neg notDigit]
  split at found
  · rw [if_pos ‹_›]
    exact scanWord_of_front whole found fits
  · rw [if_neg ‹_›]
    exact scanSymbol_of_front front found fits

end

/-! ## The tokens of a part -/

/-- A text has given tokens but for their places, wherever it stands, and one for its end. -/
def ReadAlone (g : Grammar) (cs : List Char) (ts : List Token) : Prop :=
  ∀ (file : Option String) (lines : List String) (steps : Nat) (place : Location),
    cs.length < steps → ∃ us stop, TokenStream.tokensFrom g file lines steps place cs =
      ⟨us ++ [TokenStream.endToken file stop], .finished⟩ ∧ List.Forall₂ Token.Alike ts us

namespace ReadAlone

variable {g : Grammar} {c : Char} {lexeme gap cs : List Char} {ts : List Token}

theorem nil : ReadAlone g [] [] := by
  intro file lines steps place bound
  obtain ⟨steps, rfl⟩ := Nat.exists_eq_add_of_le' bound
  exact ⟨[], _, rfl, .nil⟩

theorem blanks (areBlank : ∀ d ∈ gap, isGap d = true) (alone : ReadAlone g cs ts) :
    ReadAlone g (gap ++ cs) ts := by
  intro file lines steps place bound
  rw [List.length_append] at bound
  obtain ⟨steps, rfl⟩ := Nat.exists_eq_add_of_le' (show 1 ≤ steps by omega)
  rw [TokenStream.tokensFrom_blanks gap areBlank]
  exact alone file lines (steps + 1) _ (by omega)

theorem comment {value : TokenValue} (dropped : g.retainComments = false) (start : isGap c = false)
    (found : scan g c (lexeme ++ cs) = .token .comment value (lexeme.length + 1))
    (alone : ReadAlone g cs ts) : ReadAlone g (c :: (lexeme ++ cs)) ts := by
  intro file lines steps place bound
  rw [List.length_cons, List.length_append] at bound
  obtain ⟨steps, rfl⟩ := Nat.exists_eq_add_of_le' (show 1 ≤ steps by omega)
  rw [TokenStream.tokensFrom_comment dropped start found]
  exact alone file lines steps _ (by omega)

theorem token {t : Token} (start : isGap c = false)
    (found : scan g c (lexeme ++ cs) = .token t.kind t.value (lexeme.length + 1))
    (kept : t.kind = .comment → g.retainComments = true)
    (written : t.lexeme = String.ofList (c :: lexeme)) (alone : ReadAlone g cs ts) :
    ReadAlone g (c :: (lexeme ++ cs)) (t :: ts) := by
  intro file lines steps place bound
  rw [List.length_cons, List.length_append] at bound
  obtain ⟨steps, rfl⟩ := Nat.exists_eq_add_of_le' (show 1 ≤ steps by omega)
  obtain ⟨us, stop, others, alike⟩ :=
    alone file lines steps (place.after (c :: lexeme)) (by omega)
  rw [TokenStream.tokensFrom_token start found kept, others]
  refine ⟨_ :: us, stop, rfl, .cons ⟨rfl, rfl, written, ?_⟩ alike⟩
  exact literalOf_same (comparable_of_scan found)

end ReadAlone

namespace TokenStream

variable {g : Grammar} {file : Option String} {lines : List String}

/-- A text is white space, goes wrong behind white space, or has something to be found there. -/
theorem tokensFrom_cases (g : Grammar) (file : Option String) (lines : List String) (steps : Nat)
    (place : Location) (cs : List Char) :
    (∃ stop, tokensFrom g file lines (steps + 1) place cs = ⟨[endToken file stop], .finished⟩) ∨
    (∃ error stop, tokensFrom g file lines (steps + 1) place cs = ⟨[], .failed error stop⟩) ∨
    ∃ gap c lexeme rest kind value, cs = gap ++ c :: (lexeme ++ rest) ∧
      (∀ d ∈ gap, isGap d = true) ∧ isGap c = false ∧
      scan g c (lexeme ++ rest) = .token kind value (lexeme.length + 1) := by
  have split := List.takeWhile_append_dropWhile (p := isGap) (l := cs)
  have blank : ∀ d ∈ cs.takeWhile isGap, isGap d = true := List.all_eq_true.1 List.all_takeWhile
  have start := head_dropWhile (p := isGap) cs
  rw [tokensFrom]
  dsimp only
  generalize cs.takeWhile isGap = gap at split blank ⊢
  generalize cs.dropWhile isGap = behind at split start ⊢
  cases behind with
  | nil => exact .inl ⟨_, rfl⟩
  | cons c behind =>
    dsimp only
    split
    · exact .inr (.inl ⟨_, _, rfl⟩)
    · rename_i kind value length found
      obtain ⟨lexeme, rest, rfl, rfl⟩ := split_of_scan found
      exact .inr (.inr ⟨gap, c, lexeme, rest, kind, value, split.symm, blank, start c rfl, found⟩)

/-- What stands in front of the first token is skipped. -/
theorem tokensFrom_skip : ∀ (steps : Nat) (place : Location) (cs : List Char) {t : Token}
    {ts : List Token} {ending : StreamEnd},
      tokensFrom g file lines steps place cs = ⟨t :: ts, ending⟩ → t.kind ≠ .endOfInput →
        ∃ gap rest steps', cs = gap ++ rest ∧ t.span.start = place.after gap ∧
          tokensFrom g file lines steps' (place.after gap) rest = ⟨t :: ts, ending⟩
  | 0, _, _, _, _, _, stream, notEnd => by
    cases stream
    exact absurd rfl notEnd
  | steps + 1, place, cs, t, ts, ending, stream, notEnd => by
    rcases tokensFrom_cases g file lines steps place cs with
      ⟨stop, ended⟩ | ⟨error, stop, failed⟩ |
        ⟨gap, c, lexeme, rest, kind, value, rfl, blank, start, found⟩
    · cases ended.symm.trans stream
      exact absurd rfl notEnd
    · cases failed.symm.trans stream
    · rw [tokensFrom_blanks gap blank] at stream
      have first := stream
      rw [tokensFrom_found start found] at first
      split at first
      · obtain ⟨more, rest, steps', rfl, begins, others⟩ :=
          tokensFrom_skip steps _ _ first notEnd
        rw [← Location.after_append, ← Location.after_append] at begins others
        exact ⟨_, rest, steps', by simp, begins, others⟩
      · cases first
        exact ⟨gap, _, steps + 1, rfl, rfl, stream⟩

/-- The first tokens of a text are those of its part up to the end of the last of them. -/
theorem tokensFrom_cut : ∀ (steps : Nat) (place : Location) (cs : List Char)
    {front back : List Token} {ending : StreamEnd},
      tokensFrom g file lines steps place cs = ⟨front ++ back, ending⟩ →
      (∀ t ∈ front, t.kind ≠ .endOfInput) →
        ∃ part rest steps', cs = part ++ rest ∧ stopOf place front = place.after part ∧
          tokensFrom g file lines steps' (place.after part) rest = ⟨back, ending⟩ ∧
          ReadAlone g part front
  | steps, _, cs, [], _, _, stream, _ => ⟨[], cs, steps, rfl, rfl, stream, .nil⟩
  | 0, _, _, t :: front, back, _, stream, notEnds => by
    rw [List.cons_append] at stream
    obtain ⟨rfl, -⟩ := List.cons.inj (congrArg TokenStream.tokens stream)
    exact absurd rfl (notEnds _ List.mem_cons_self)
  | steps + 1, place, cs, t :: front, back, ending, stream, notEnds => by
    rcases tokensFrom_cases g file lines steps place cs with
      ⟨stop, ended⟩ | ⟨error, stop, failed⟩ |
        ⟨gap, c, lexeme, rest, kind, value, rfl, blank, start, found⟩
    · rw [ended, List.cons_append] at stream
      obtain ⟨rfl, -⟩ := List.cons.inj (congrArg TokenStream.tokens stream)
      exact absurd rfl (notEnds _ List.mem_cons_self)
    · cases failed.symm.trans stream
    · rw [tokensFrom_blanks gap blank, tokensFrom_found start found] at stream
      -- what is found has all of its characters in the part
      have again (part rest' : List Char) (split : rest = part ++ rest') :
          scan g c (lexeme ++ part) = .token kind value (lexeme.length + 1) := by
        subst split
        rw [← List.append_assoc] at found
        refine scan_of_front (List.prefix_append _ rest') found ?_
        rw [List.length_append]
        omega
      have places (part : List Char) : ((place.after gap).after (c :: lexeme)).after part =
          place.after (gap ++ c :: (lexeme ++ part)) := by
        rw [← Location.after_append, ← Location.after_append, List.cons_append]
      split at stream
      · rename_i skipped
        obtain ⟨rfl, dropped⟩ := skipped
        obtain ⟨part, rest', steps', split, stop, others, alone⟩ :=
          tokensFrom_cut steps _ _ stream notEnds
        rw [places] at stop others
        rw [stopOf_cons] at stop ⊢
        refine ⟨_, rest', steps', ?_, stop, others,
          .blanks blank (.comment dropped start (again part rest' split) alone)⟩
        simp [split]
      · rename_i kept
        obtain ⟨rfl, more⟩ := List.cons.inj (congrArg TokenStream.tokens stream)
        have ending' : (tokensFrom g file lines steps ((place.after gap).after (c :: lexeme))
          rest).ending = ending := congrArg TokenStream.ending stream
        obtain ⟨part, rest', steps', split, stop, others, alone⟩ :=
          tokensFrom_cut steps _ rest (congrArg₂ TokenStream.mk more ending')
            fun t member => notEnds t (List.mem_cons_of_mem _ member)
        rw [places] at stop others
        refine ⟨_, rest', steps', ?_, (stopOf_cons ..).trans stop, others, .blanks blank
          (.token start (again part rest' split) (fun isComment => ?_) rfl alone)⟩
        · simp [split]
        · exact Bool.not_eq_false _ ▸ fun dropped => kept ⟨isComment, dropped⟩

/-- A stretch of a text from the start of one token to the end of another has the tokens that the
text has there. -/
theorem readAlone_of_source {source : Source} {front core back : List Token} {first last : Token}
    (tokens : (ofSource g source).tokens = front ++ (core ++ back))
    (notEnds : ∀ t ∈ front ++ core, t.kind ≠ .endOfInput) (head : core.head? = some first)
    (tail : core.getLast? = some last) :
    ReadAlone g (charsBetween source.text first.span.start last.span.stop) core := by
  obtain ⟨frontNotEnds, coreNotEnds⟩ := List.forall_mem_append.1 notEnds
  obtain ⟨more, rfl⟩ := List.head?_eq_some_iff.1 head
  obtain ⟨before, rest, steps, text, -, others, -⟩ := tokensFrom_cut _ _ _
    (congrArg₂ TokenStream.mk tokens rfl) frontNotEnds
  rw [List.cons_append] at others
  obtain ⟨gap, rest, steps', rfl, start, others⟩ := tokensFrom_skip _ _ _ others
    (coreNotEnds first List.mem_cons_self)
  rw [← Location.after_append] at start others
  obtain ⟨part, rest, -, rfl, stop, -, alone⟩ := tokensFrom_cut _ _ _ others coreNotEnds
  rw [stopOf, tail, Option.map_some, Option.getD_some, ← Location.after_append] at stop
  rw [text, start, stop, ← List.append_assoc, charsBetween_after]
  exact alone

end TokenStream

end InstallScript
