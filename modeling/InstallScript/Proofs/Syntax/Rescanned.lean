import InstallScript.Proofs.Syntax.Tiling

/-!
Lexemes that are found again. What is found at the head of a text depends on what follows it only as
far as that could belong to it. So a token is found again from its lexeme if white space or a
comment follows, or nothing (`scan_again`): none of these goes on with a word, a number or a symbol.
-/

namespace InstallScript

/-- The characters that white space and comments begin with. -/
def clearings : List Char := [' ', '\t', '\r', '\n', '\ufeff', '#', '/']

/-- A text is empty or begins as white space and comments do. -/
def Clear (rest : List Char) : Prop :=
  ∀ c, rest.head? = some c → c ∈ clearings

namespace Clear

variable {rest : List Char}

theorem nil : Clear [] := nofun

theorem cons {c : Char} (member : c ∈ clearings) : Clear (c :: rest) := by
  intro d head
  cases head
  exact member

/-- A test that holds of none of these characters ends at such a text. -/
theorem head_not {p : Char → Bool} (clear : Clear rest) (none : clearings.any p = false) :
    ∀ c, rest.head? = some c → p c = false := by
  intro c head
  exact Bool.eq_false_iff.2 (List.any_eq_false.1 none c (clear c head))

theorem head_ne {d : Char} (clear : Clear rest) (other : d ∉ clearings) :
    ∀ c, rest.head? = some c → c ≠ d := by
  rintro c head rfl
  exact other (clear c head)

end Clear

/-! ## Strings -/

theorem StringScan.prepend_eq_closed {c : Char} {taken length : Nat} {s : StringScan}
    {value : List Char} : s.prepend c taken = .closed value length ↔
      ∃ value' length', s = .closed value' length' ∧ value = c :: value' ∧
        length = taken + length' := by
  cases s with
  | closed value' length' =>
    rw [prepend, StringScan.closed.injEq]
    constructor
    · rintro ⟨rfl, rfl⟩
      exact ⟨value', length', rfl, rfl, rfl⟩
    · rintro ⟨_, _, same, rfl, rfl⟩
      cases same
      exact ⟨rfl, rfl⟩
  | fault f lead n =>
    constructor
    · rintro ⟨⟩
    · rintro ⟨_, _, same, -⟩
      cases same

/-- The rest of a string is closed in a text, whatever follows it there. -/
def ClosedIn (quote : Char) (cs value : List Char) (length : Nat) : Prop :=
  ∃ body rest, cs = body ++ rest ∧ length = body.length ∧
    ∀ more, scanString quote (body ++ more) = .closed value length

theorem ClosedIn.front {quote meaning : Char} (front : List Char) {cs value : List Char}
    {length : Nat}
    (reads : ∀ more, scanString quote (front ++ more) =
      (scanString quote more).prepend meaning front.length)
    (found : (scanString quote cs).prepend meaning front.length = .closed value length)
    (again : ∀ value length, scanString quote cs = .closed value length →
      ClosedIn quote cs value length) : ClosedIn quote (front ++ cs) value length := by
  obtain ⟨value, length, inner, rfl, rfl⟩ := StringScan.prepend_eq_closed.1 found
  obtain ⟨body, rest, rfl, rfl, again⟩ := again _ _ inner
  refine ⟨front ++ body, rest, (List.append_assoc ..).symm, (List.length_append ..).symm, ?_⟩
  intro more
  rw [List.append_assoc, reads, again]
  rfl

theorem scanString_other {quote c : Char} (notEscape : c ≠ '\\') (rest : List Char) :
    scanString quote (c :: rest) =
      if c = quote then .closed [] 1
      else if c = '\n' then .fault .unterminatedString 0 0
      else (scanString quote rest).prepend c 1 := by
  rw [scanString]
  · exact fun absurd _ => notEscape absurd
  · exact fun _ absurd _ => notEscape absurd
  · exact fun _ absurd _ => notEscape absurd
  · exact fun _ _ absurd _ => notEscape absurd

theorem notEscape_of_other {c : Char} {rest : List Char} (lone : c = '\\' → rest = [] → False)
    (escape : ∀ d more, c = '\\' → rest = d :: more → False) : c ≠ '\\' := by
  intro isEscape
  cases rest with
  | nil => exact lone isEscape rfl
  | cons d more => exact escape d more isEscape rfl

/-- A string ends at its closing quote, whatever follows that. -/
theorem scanString_again {quote : Char} (cs value : List Char) (length : Nat) :
    scanString quote cs = .closed value length → ClosedIn quote cs value length := by
  fun_induction scanString quote cs generalizing value length with
  | case3 a b rest n number ih =>
    refine fun found => ClosedIn.front ['\\', 'x', a, b] (fun more => ?_) found ih
    simp only [List.cons_append, List.nil_append]
    rw [scanString, number]
    rfl
  | case6 a b c d rest n number ih =>
    refine fun found => ClosedIn.front ['\\', 'u', a, b, c, d] (fun more => ?_) found ih
    simp only [List.cons_append, List.nil_append]
    rw [scanString, number]
    rfl
  | case9 c rest notX notU meaning escape ih =>
    refine fun found => ClosedIn.front ['\\', c] (fun more => ?_) found ih
    simp only [List.cons_append, List.nil_append]
    rw [scanString, escape]
    · rfl
    · exact notX
    · exact notU
  | case11 rest lone _ _ escape =>
    have closed (more : List Char) : scanString quote (quote :: more) = .closed [] 1 := by
      rw [scanString_other (notEscape_of_other lone escape), if_pos rfl]
    rintro ⟨⟩
    exact ⟨[quote], rest, rfl, rfl, closed⟩
  | case13 c rest lone _ _ escape notQuote notEnd ih =>
    refine fun found => ClosedIn.front [c] (fun more => ?_) found ih
    rw [List.singleton_append, scanString_other (notEscape_of_other lone escape), if_neg notQuote,
      if_neg notEnd]
    rfl
  | _ => rintro ⟨⟩

/-! ## Numbers -/

/-- A fraction is empty, or a point with digits behind it. -/
theorem takeFraction_shape (cs : List Char) :
    takeFraction cs <+: cs ∧ (takeFraction cs = [] ∨
      ∃ d ds, takeFraction cs = '.' :: d :: ds ∧ ∀ c ∈ d :: ds, c.isDigit = true) := by
  unfold takeFraction
  split
  · rename_i d rest
    split
    · rename_i digit
      refine ⟨?_, .inr ⟨d, _, rfl, List.forall_mem_cons.2 ⟨digit, ?_⟩⟩⟩
      · exact (List.prefix_cons_inj _).2 ((List.prefix_cons_inj _).2 (List.takeWhile_prefix _))
      · exact List.all_eq_true.1 List.all_takeWhile
    · exact ⟨List.nil_prefix, .inl rfl⟩
  · exact ⟨List.nil_prefix, .inl rfl⟩

/-- The mark of an exponent is empty, or a letter, perhaps with a sign behind it. -/
theorem takeExponentMark_shape (cs : List Char) :
    takeExponentMark cs <+: cs ∧ (takeExponentMark cs = [] ∨
      ∃ e, (e = 'e' ∨ e = 'E') ∧ (takeExponentMark cs = [e] ∨
        ∃ s, (s = '+' ∨ s = '-') ∧ takeExponentMark cs = [e, s])) := by
  unfold takeExponentMark
  split
  · rename_i e s rest
    split
    · rename_i letter
      split
      · rename_i sign
        exact ⟨⟨rest, rfl⟩, .inr ⟨e, letter, .inr ⟨s, sign, rfl⟩⟩⟩
      · exact ⟨⟨s :: rest, rfl⟩, .inr ⟨e, letter, .inl rfl⟩⟩
    · exact ⟨List.nil_prefix, .inl rfl⟩
  · rename_i e
    split
    · rename_i letter
      exact ⟨⟨[], rfl⟩, .inr ⟨e, letter, .inl rfl⟩⟩
    · exact ⟨List.nil_prefix, .inl rfl⟩
  · exact ⟨List.nil_prefix, .inl rfl⟩

/-- The parts of a number literal, as they are found in a text. -/
structure NumberParts (whole fraction mark exponent : List Char) : Prop where
  whole : ∀ c ∈ whole, c.isDigit = true
  fraction : fraction = [] ∨ ∃ d ds, fraction = '.' :: d :: ds ∧ ∀ c ∈ d :: ds, c.isDigit = true
  mark : mark = [] ∧ exponent = [] ∨ ∃ e d ds, (e = 'e' ∨ e = 'E') ∧
    (mark = [e] ∨ ∃ s, (s = '+' ∨ s = '-') ∧ mark = [e, s]) ∧
    exponent = d :: ds ∧ ∀ c ∈ d :: ds, c.isDigit = true

namespace NumberParts

variable {whole fraction mark exponent rest : List Char}

theorem mark_head (parts : NumberParts whole fraction mark exponent) (clear : Clear rest) :
    ∀ c, (mark ++ (exponent ++ rest)).head? = some c → c.isDigit = false ∧ c ≠ '.' := by
  rcases parts.mark with ⟨rfl, rfl⟩ | ⟨e, d, ds, letter, form, -, -⟩
  · exact fun c head => ⟨clear.head_not (by decide +kernel) c head,
      clear.head_ne (by decide +kernel) c head⟩
  · have first : ∀ c, (mark ++ (exponent ++ rest)).head? = some c → c = e := by
      rcases form with rfl | ⟨s, -, rfl⟩ <;> rintro c ⟨⟩ <;> rfl
    intro c head
    rw [first c head]
    rcases letter with rfl | rfl <;> exact ⟨rfl, by decide⟩

theorem fraction_head (parts : NumberParts whole fraction mark exponent) (clear : Clear rest) :
    ∀ c, (fraction ++ (mark ++ (exponent ++ rest))).head? = some c → c.isDigit = false := by
  rcases parts.fraction with rfl | ⟨d, ds, rfl, -⟩
  · exact fun c head => (parts.mark_head clear c head).1
  · rintro c ⟨⟩
    rfl

theorem fraction_again (parts : NumberParts whole fraction mark exponent) (clear : Clear rest) :
    takeFraction (fraction ++ (mark ++ (exponent ++ rest))) = fraction := by
  rcases parts.fraction with rfl | ⟨d, ds, rfl, digits⟩
  · exact takeFraction_of_head fun point => (parts.mark_head clear '.' point).2 rfl
  · obtain ⟨first, others⟩ := List.forall_mem_cons.1 digits
    have more : (ds ++ (mark ++ (exponent ++ rest))).takeWhile Char.isDigit = ds :=
      takeWhile_append_of_head others fun c head => (parts.mark_head clear c head).1
    simp only [takeFraction, List.cons_append, first, if_true, more]

theorem mark_again (parts : NumberParts whole fraction mark exponent) (clear : Clear rest) :
    takeExponentMark (mark ++ (exponent ++ rest)) = mark := by
  rcases parts.mark with ⟨rfl, rfl⟩ | ⟨e, d, ds, letter, form, rfl, digits⟩
  · refine takeExponentMark_of_head fun c head => ?_
    exact ⟨clear.head_ne (by decide +kernel) c head, clear.head_ne (by decide +kernel) c head⟩
  · have noSign : ¬ (d = '+' ∨ d = '-') := by
      rintro (rfl | rfl) <;> cases digits _ List.mem_cons_self
    rcases form with rfl | ⟨s, sign, rfl⟩
    · simp only [takeExponentMark, List.cons_append, List.nil_append, if_pos letter, if_neg noSign]
    · simp only [takeExponentMark, List.cons_append, List.nil_append, if_pos letter, if_pos sign]

theorem exponent_again (parts : NumberParts whole fraction mark exponent) (clear : Clear rest) :
    (if mark.isEmpty then [] else (exponent ++ rest).takeWhile Char.isDigit) = exponent := by
  rcases parts.mark with ⟨rfl, rfl⟩ | ⟨e, d, ds, letter, form, rfl, digits⟩
  · rfl
  · have some : mark.isEmpty = false := by
      rcases form with rfl | ⟨s, -, rfl⟩ <;> rfl
    rw [some]
    exact takeWhile_append_of_head digits (clear.head_not (by decide +kernel))

/-- The parts are found again in front of a text that does not go on with them. -/
theorem scan_again (parts : NumberParts whole fraction mark exponent) (clear : Clear rest) :
    scanNumber (whole ++ (fraction ++ (mark ++ (exponent ++ rest)))) =
      match literalNumber whole fraction mark exponent with
      | .float (.infinite _) =>
        .fault (.invalidNumber (String.ofList (whole ++ fraction ++ mark ++ exponent))) 0
          (whole ++ fraction ++ mark ++ exponent).length
      | number =>
        .token .numberLiteral (.number number) (whole ++ fraction ++ mark ++ exponent).length := by
  have wholeEq :
      (whole ++ (fraction ++ (mark ++ (exponent ++ rest)))).takeWhile Char.isDigit = whole :=
    takeWhile_append_of_head parts.whole (parts.fraction_head clear)
  have complete : (!mark.isEmpty && exponent.isEmpty) = false := by
    rcases parts.mark with ⟨rfl, rfl⟩ | ⟨e, d, ds, -, -, rfl, -⟩
    · rfl
    · exact Bool.and_false _
  have ended : rest.head?.any isNameStart = false := by
    cases rest with
    | nil => rfl
    | cons c rest => exact clear.head_not (p := isNameStart) (by decide +kernel) c rfl
  unfold scanNumber
  dsimp only
  rw [wholeEq, List.drop_left, parts.fraction_again clear, List.drop_left, parts.mark_again clear,
    List.drop_left, parts.exponent_again clear, List.drop_left, complete,
    if_neg Bool.false_ne_true, ended]
  exact if_neg Bool.false_ne_true

end NumberParts

/-- A number ends before white space and comments. -/
theorem scanNumber_again {cs : List Char} {kind : TokenKind} {value : TokenValue} {length : Nat}
    (found : scanNumber cs = .token kind value length) :
    ∃ lexeme rest, cs = lexeme ++ rest ∧ length = lexeme.length ∧
      ∀ more, Clear more → scanNumber (lexeme ++ more) = .token kind value length := by
  unfold scanNumber at found
  dsimp only at found
  obtain ⟨afterWhole, split⟩ : cs.takeWhile Char.isDigit <+: cs := List.takeWhile_prefix _
  have wholeDigits : ∀ c ∈ cs.takeWhile Char.isDigit, c.isDigit = true :=
    List.all_eq_true.1 List.all_takeWhile
  generalize cs.takeWhile Char.isDigit = whole at found split wholeDigits
  subst split
  rw [List.drop_left] at found
  obtain ⟨⟨afterFraction, split⟩, fractionShape⟩ := takeFraction_shape afterWhole
  generalize takeFraction afterWhole = fraction at found split fractionShape
  subst split
  rw [List.drop_left] at found
  obtain ⟨⟨afterMark, split⟩, markShape⟩ := takeExponentMark_shape afterFraction
  generalize takeExponentMark afterFraction = mark at found split markShape
  subst split
  rw [List.drop_left] at found
  have exponentShape : (if mark.isEmpty then [] else afterMark.takeWhile Char.isDigit) <+:
      afterMark ∧ (mark = [] → (if mark.isEmpty then [] else afterMark.takeWhile Char.isDigit) = [])
      ∧ ∀ c ∈ (if mark.isEmpty then [] else afterMark.takeWhile Char.isDigit),
        c.isDigit = true := by
    cases mark with
    | nil => exact ⟨List.nil_prefix, fun _ => rfl, nofun⟩
    | cons e mark =>
      exact ⟨List.takeWhile_prefix _, nofun, List.all_eq_true.1 List.all_takeWhile⟩
  generalize (if mark.isEmpty then [] else afterMark.takeWhile Char.isDigit) = exponent
    at found exponentShape
  obtain ⟨⟨rest, split⟩, noExponent, exponentDigits⟩ := exponentShape
  subst split
  rw [List.drop_left] at found
  split at found
  · cases found
  rename_i complete
  split at found
  · cases found
  have parts : NumberParts whole fraction mark exponent := by
    refine ⟨wholeDigits, fractionShape, ?_⟩
    rcases markShape with rfl | ⟨e, letter, form⟩
    · exact .inl ⟨rfl, noExponent rfl⟩
    · cases exponent with
      | nil =>
        refine absurd ?_ complete
        rcases form with rfl | ⟨s, -, rfl⟩ <;> rfl
      | cons d ds => exact .inr ⟨e, d, ds, letter, form, rfl, exponentDigits⟩
  refine ⟨whole ++ (fraction ++ (mark ++ exponent)), rest, ?_, ?_, fun more clear => ?_⟩
  · simp only [List.append_assoc]
  · split at found
    · cases found
    · cases found
      simp only [List.append_assoc]
  · have again := (parts.scan_again clear).trans found
    simpa only [List.append_assoc] using again

/-! ## Words and symbols -/

section

variable {g : Grammar}

theorem scanWord_again {c : Char} {cs : List Char} {kind : TokenKind} {value : TokenValue}
    {length : Nat} (start : isNameStart c = true)
    (found : scanWord g (c :: cs) = .token kind value length) :
    ∃ lexeme rest, cs = lexeme ++ rest ∧ length = lexeme.length + 1 ∧
      ∀ more, Clear more → scanWord g (c :: (lexeme ++ more)) = .token kind value length := by
  have part := isNamePart_of_isNameStart start
  have parts : ∀ d ∈ cs.takeWhile isNamePart, isNamePart d = true :=
    List.all_eq_true.1 List.all_takeWhile
  refine ⟨cs.takeWhile isNamePart, cs.dropWhile isNamePart,
    List.takeWhile_append_dropWhile.symm, ?_, fun more clear => ?_⟩
  · have word := found
    unfold scanWord at word
    dsimp only at word
    rw [List.takeWhile_cons_of_pos part] at word
    split at word <;> cases word <;> rfl
  · have same : (c :: (cs.takeWhile isNamePart ++ more)).takeWhile isNamePart =
        (c :: cs).takeWhile isNamePart := by
      rw [List.takeWhile_cons_of_pos part, List.takeWhile_cons_of_pos part,
        takeWhile_append_of_head parts (clear.head_not (by decide +kernel))]
    rw [← found]
    unfold scanWord
    rw [same]

/-- No symbol goes on with white space or a comment. -/
theorem doubleSymbol?_clearing {c d : Char} (clearing : d ∈ clearings) :
    doubleSymbol? c d = none := by
  unfold doubleSymbol?
  rw [List.lookup_eq_none_iff]
  intro entry member
  have second : d ≠ entry.1.2 := by
    rintro rfl
    clear * - member clearing
    revert entry
    decide +kernel
  rw [bne_iff_ne]
  exact fun same => second (congrArg Prod.snd same)

theorem scanSymbol_clear {c : Char} {more : List Char} (clear : Clear more) :
    scanSymbol c more = scanSingle c := by
  cases more with
  | nil => rfl
  | cons d more => rw [scanSymbol, doubleSymbol?_clearing (clear d rfl)]

theorem scanSingle_length {c : Char} {kind : TokenKind} {value : TokenValue} {length : Nat}
    (found : scanSingle c = .token kind value length) : length = 1 := by
  unfold scanSingle at found
  split at found
  · cases found
    rfl
  · cases found

theorem scanSymbol_again {c : Char} {cs : List Char} {kind : TokenKind} {value : TokenValue}
    {length : Nat} (found : scanSymbol c cs = .token kind value length) :
    ∃ lexeme rest, cs = lexeme ++ rest ∧ length = lexeme.length + 1 ∧
      ∀ more, Clear more → scanSymbol c (lexeme ++ more) = .token kind value length := by
  have single (found : scanSingle c = .token kind value length) :
      ∃ lexeme rest, cs = lexeme ++ rest ∧ length = lexeme.length + 1 ∧
        ∀ more, Clear more → scanSymbol c (lexeme ++ more) = .token kind value length :=
    ⟨[], cs, rfl, scanSingle_length found, fun more clear =>
      (scanSymbol_clear clear).trans found⟩
  cases cs with
  | nil => exact single found
  | cons d cs =>
    rw [scanSymbol] at found
    split at found
    · rename_i double
      cases found
      refine ⟨[d], cs, rfl, rfl, fun more _ => ?_⟩
      rw [List.singleton_append, scanSymbol, double]
    · exact single found

theorem scanQuoted_again {quote : Char} {cs : List Char} {kind : TokenKind} {value : TokenValue}
    {length : Nat} (found : scanQuoted quote cs = .token kind value length) :
    ∃ lexeme rest, cs = lexeme ++ rest ∧ length = lexeme.length + 1 ∧
      ∀ more, Clear more → scanQuoted quote (lexeme ++ more) = .token kind value length := by
  unfold scanQuoted at found
  split at found
  · rename_i text size closed
    cases found
    obtain ⟨body, rest, rfl, rfl, again⟩ := scanString_again cs text size closed
    refine ⟨body, rest, rfl, rfl, fun more _ => ?_⟩
    rw [scanQuoted, again]
  · cases found
  · cases found

/-- A token is found again in front of white space, of a comment and of nothing. -/
theorem scan_again {c : Char} {cs : List Char} {kind : TokenKind} {value : TokenValue}
    {length : Nat} (found : scan g c cs = .token kind value length) (proper : kind ≠ .comment) :
    ∃ lexeme rest, cs = lexeme ++ rest ∧ length = lexeme.length + 1 ∧
      ∀ more, Clear more → scan g c (lexeme ++ more) = .token kind value length := by
  unfold scan at found
  split at found
  · exact absurd (scanLineComment_value found).1 proper
  rename_i notHash
  split at found
  · exact absurd (scanBlockComment_value found).1 proper
  rename_i notMarked
  -- no comment begins where the lexeme is followed by something else
  have unmarked {lexeme rest more : List Char} (split : cs = lexeme ++ rest) (clear : Clear more) :
      ¬ (c = '/' ∧ (lexeme ++ more).head? = some '*') := by
    cases lexeme with
    | nil => exact fun marked => clear.head_ne (by decide +kernel) '*' marked.2 rfl
    | cons d lexeme =>
      subst split
      exact notMarked
  split at found
  · rename_i quote
    obtain ⟨lexeme, rest, split, size, again⟩ := scanQuoted_again found
    refine ⟨lexeme, rest, split, size, fun more clear => ?_⟩
    rw [scan, if_neg notHash, if_neg (unmarked split clear), if_pos quote, again more clear]
  rename_i notQuote
  split at found
  · rename_i digit
    obtain ⟨lexeme, rest, split, size, again⟩ := scanNumber_again found
    have takes := (found_of_scanNumber digit found).takes
    cases lexeme with
    | nil => exact absurd takes (by simp [size])
    | cons d lexeme =>
      obtain ⟨rfl, tail⟩ := List.cons.inj split
      refine ⟨lexeme, rest, tail, size, fun more clear => ?_⟩
      rw [scan, if_neg notHash, if_neg (unmarked tail clear), if_neg notQuote, if_pos digit]
      exact again more clear
  rename_i notDigit
  split at found
  · rename_i start
    obtain ⟨lexeme, rest, split, size, again⟩ := scanWord_again start found
    refine ⟨lexeme, rest, split, size, fun more clear => ?_⟩
    rw [scan, if_neg notHash, if_neg (unmarked split clear), if_neg notQuote, if_neg notDigit,
      if_pos start, again more clear]
  · rename_i notStart
    obtain ⟨lexeme, rest, split, size, again⟩ := scanSymbol_again found
    refine ⟨lexeme, rest, split, size, fun more clear => ?_⟩
    rw [scan, if_neg notHash, if_neg (unmarked split clear), if_neg notQuote, if_neg notDigit,
      if_neg notStart, again more clear]

end

end InstallScript
