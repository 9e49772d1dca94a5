import InstallScript.Proofs.Number.Spelling
import InstallScript.Token.Stream
import InstallScript.Tree.Print

/-!
What the reader of tokens finds at the head of a text. A lexeme is found whatever text follows it,
as long as that text is apart from it: it is empty or begins with white space, a parenthesis, a
comma or a sign of equality.

`Reads g cs ms rest` says that the tokens `ms` are found one after another from `cs` on, and that
`rest` is left then. Places are left out of it.
-/

namespace InstallScript

/-! ## Tokens without places -/

/-- The kinds of the tokens that stand for more than their kind. -/
def valuedKinds : List TokenKind :=
  [.numberLiteral, .stringLiteral, .boolLiteral, .identifier, .comment]

/-- A token without its place: its kind, and what it stands for if that is more than its kind. -/
structure Mark where
  kind : TokenKind
  value : TokenValue := .nothing
  deriving DecidableEq

/-- The mark of a token. -/
def Mark.of (kind : TokenKind) (value : TokenValue) : Mark :=
  ⟨kind, if kind ∈ valuedKinds then value else .nothing⟩

/-- The mark of a token. -/
def Token.mark (t : Token) : Mark := .of t.kind t.value

/-- Tokens found one after another, up to what is left. -/
inductive Reads (g : Grammar) : List Char → List Mark → List Char → Prop
  | refl {cs : List Char} : Reads g cs [] cs
  | gap {c : Char} {cs rest : List Char} {ms : List Mark} (blank : isGap c = true)
      (more : Reads g cs ms rest) : Reads g (c :: cs) ms rest
  | token {c : Char} {lexeme cs rest : List Char} {kind : TokenKind} {value : TokenValue}
      {ms : List Mark} (start : isGap c = false)
      (found : scan g c (lexeme ++ cs) = .token kind value (lexeme.length + 1))
      (kept : kind = .comment → g.retainComments = true) (more : Reads g cs ms rest) :
      Reads g (c :: (lexeme ++ cs)) (.of kind value :: ms) rest

section

variable {g : Grammar}

theorem Reads.trans {cs ds rest : List Char} {ms ns : List Mark} (first : Reads g cs ms ds)
    (second : Reads g ds ns rest) : Reads g cs (ms ++ ns) rest := by
  induction first with
  | refl => exact second
  | gap blank _ ih => exact .gap blank (ih second)
  | token start found kept _ ih => exact .token start found kept (ih second)

theorem Reads.single {c : Char} {rest : List Char} {kind : TokenKind} {value : TokenValue}
    (start : isGap c = false) (found : scan g c rest = .token kind value 1)
    (kept : kind = .comment → g.retainComments = true) :
    Reads g (c :: rest) [.of kind value] rest := by
  have found : scan g c ([] ++ rest) = .token kind value (([] : List Char).length + 1) := found
  exact .token start found kept .refl

/-- White space is no token. -/
theorem Reads.gaps {cs rest : List Char} {ms : List Mark} (blanks : List Char)
    (areBlank : ∀ c ∈ blanks, isGap c = true) (more : Reads g cs ms rest) :
    Reads g (blanks ++ cs) ms rest := by
  induction blanks with
  | nil => exact more
  | cons c blanks ih =>
    refine .gap (areBlank c List.mem_cons_self) (ih fun c' member => ?_)
    exact areBlank c' (List.mem_cons_of_mem _ member)

end

/-! ## What follows a lexeme -/

/-- The characters that may follow a word or a number. -/
def separators : List Char := [' ', '\n', '(', ')', ',', '=']

/-- The text does not go on with a character that could belong to a word or a number. -/
def Apart (rest : List Char) : Prop :=
  ∀ c, rest.head? = some c → c ∈ separators

theorem Apart.cons {c : Char} {rest : List Char} (member : c ∈ separators) : Apart (c :: rest) := by
  intro d head
  cases head
  exact member

/-- A test that holds of no separator ends at a text that is apart. -/
theorem Apart.head_not {p : Char → Bool} {rest : List Char} (apart : Apart rest)
    (none : separators.any p = false) : ∀ c, rest.head? = some c → p c = false := by
  intro c head
  exact Bool.eq_false_iff.2 (List.any_eq_false.1 none c (apart c head))

theorem Apart.head_ne {d : Char} {rest : List Char} (apart : Apart rest) (other : d ∉ separators) :
    ∀ c, rest.head? = some c → c ≠ d := by
  rintro c head rfl
  exact other (apart c head)

/-- The stretch that a test holds of ends where the test first fails. -/
theorem takeWhile_append_of_head {p : Char → Bool} {cs rest : List Char}
    (holds : ∀ c ∈ cs, p c = true) (ends : ∀ c, rest.head? = some c → p c = false) :
    (cs ++ rest).takeWhile p = cs := by
  rw [List.takeWhile_append_of_pos holds]
  cases rest with
  | nil => simp
  | cons c rest => rw [List.takeWhile_cons_of_neg (by simp [ends c rfl]), List.append_nil]

/-! ## First characters -/

theorem eq_digit_of_isDigit {c : Char} (digit : c.isDigit = true) :
    ∃ n, n < 10 ∧ c = Char.ofNat (48 + n) := by
  have bounds : 48 ≤ c.toNat ∧ c.toNat ≤ 57 := by
    unfold Char.isDigit at digit
    rw [Bool.and_eq_true, decide_eq_true_eq, decide_eq_true_eq] at digit
    exact ⟨UInt32.le_iff_toNat_le.1 digit.1, UInt32.le_iff_toNat_le.1 digit.2⟩
  exact ⟨c.toNat - 48, by omega, by rw [Nat.add_sub_cancel' bounds.1, Char.ofNat_toNat]⟩

/-- A test of characters that holds of every digit, or of none. -/
theorem test_of_isDigit {p : Char → Bool} {b : Bool} {c : Char} (digit : c.isDigit = true)
    (all : ∀ n < 10, p (Char.ofNat (48 + n)) = b) : p c = b := by
  obtain ⟨n, bound, rfl⟩ := eq_digit_of_isDigit digit
  exact all n bound

/-- What a character that begins a name is not. -/
theorem not_of_isNameStart {c : Char} (start : isNameStart c = true) :
    c ≠ '#' ∧ c ≠ '/' ∧ c ≠ '"' ∧ c ≠ '\'' ∧ c.isDigit = false ∧ isGap c = false := by
  have ne (d : Char) (other : isNameStart d = false) : c ≠ d := by
    rintro rfl
    rw [other] at start
    cases start
  refine ⟨ne _ (by decide), ne _ (by decide), ne _ (by decide), ne _ (by decide), ?_, ?_⟩
  · cases digit : c.isDigit with
    | false => rfl
    | true =>
      have notStart : isNameStart c = false := test_of_isDigit digit (by decide)
      rw [notStart] at start
      cases start
  · simp only [isGap, ne ' ' (by decide), ne '\t' (by decide), ne '\r' (by decide),
      ne '\n' (by decide), ne '\ufeff' (by decide +kernel), decide_false, Bool.or_self]

/-! ## Words -/

/-- A name of the language: no keyword. -/
structure IsName (g : Grammar) (name : String) : Prop where
  start : ∃ c cs, name.toList = c :: cs ∧ isNameStart c = true
  parts : ∀ c ∈ name.toList, isNamePart c = true
  free : g.keyword? name = none

section

variable {g : Grammar}

theorem scan_word {c : Char} {cs rest : List Char} (start : isNameStart c = true)
    (parts : ∀ d ∈ c :: cs, isNamePart d = true) (apart : Apart rest) :
    scan g c (cs ++ rest) =
      match g.keyword? (String.ofList (c :: cs)) with
      | none => .token .identifier (.text (String.ofList (c :: cs))) (cs.length + 1)
      | some .boolLiteral =>
        .token .boolLiteral (.bool (lowerAscii (String.ofList (c :: cs)) = "true")) (cs.length + 1)
      | some kind =>
        .token kind (.text (lowerAscii (String.ofList (c :: cs)))) (cs.length + 1) := by
  obtain ⟨notHash, notSlash, notQuote, notApostrophe, notDigit, -⟩ := not_of_isNameStart start
  have lexeme : (c :: (cs ++ rest)).takeWhile isNamePart = c :: cs :=
    takeWhile_append_of_head parts (apart.head_not (by decide))
  unfold scan
  rw [if_neg notHash, if_neg (fun both => notSlash both.1),
    if_neg (fun either => either.elim notQuote notApostrophe), notDigit,
    if_neg Bool.false_ne_true, if_pos start]
  unfold scanWord
  dsimp only
  rw [lexeme]
  rfl

theorem Reads.name {name : String} (isName : IsName g name) {rest : List Char}
    (apart : Apart rest) :
    Reads g (name.toList ++ rest) [.of .identifier (.text name)] rest := by
  obtain ⟨⟨c, cs, eq, start⟩, parts, free⟩ := isName
  have whole : String.ofList (c :: cs) = name := by rw [← eq, String.ofList_toList]
  rw [eq] at parts ⊢
  refine .token (not_of_isNameStart start).2.2.2.2.2 ?_ nofun .refl
  rw [scan_word start parts apart, whole, free]

/-- A keyword is found as its kind. -/
theorem Reads.keyword {word : String} {kind : TokenKind} {c : Char} {cs : List Char}
    (eq : word.toList = c :: cs) (start : isNameStart c = true)
    (parts : ∀ d ∈ c :: cs, isNamePart d = true) (found : g.keyword? word = some kind)
    (noValue : kind ∉ valuedKinds) {rest : List Char} (apart : Apart rest) :
    Reads g (word.toList ++ rest) [⟨kind, .nothing⟩] rest := by
  have whole : String.ofList (c :: cs) = word := by rw [← eq, String.ofList_toList]
  have mark (value : TokenValue) : (⟨kind, .nothing⟩ : Mark) = .of kind value := by
    rw [Mark.of, if_neg noValue]
  rw [eq, mark (.text (lowerAscii word))]
  refine .token (not_of_isNameStart start).2.2.2.2.2 ?_ ?_ .refl
  · rw [scan_word start parts apart, whole, found]
    cases kind <;> first | rfl | exact absurd (by decide) noValue
  · rintro rfl
    exact absurd (by decide) noValue

/-- A truth value is found as such. -/
theorem Reads.truth {word : String} {b : Bool} {c : Char} {cs : List Char}
    (eq : word.toList = c :: cs) (start : isNameStart c = true)
    (parts : ∀ d ∈ c :: cs, isNamePart d = true) (found : g.keyword? word = some .boolLiteral)
    (value : decide (lowerAscii word = "true") = b) {rest : List Char} (apart : Apart rest) :
    Reads g (word.toList ++ rest) [.of .boolLiteral (.bool b)] rest := by
  have whole : String.ofList (c :: cs) = word := by rw [← eq, String.ofList_toList]
  rw [eq, ← value]
  refine .token (not_of_isNameStart start).2.2.2.2.2 ?_ nofun .refl
  rw [scan_word start parts apart, whole, found]

/-! ## Numbers -/

theorem takeFraction_of_head {cs : List Char} (notPoint : cs.head? ≠ some '.') :
    takeFraction cs = [] := by
  unfold takeFraction
  split
  · exact absurd rfl notPoint
  · rfl

theorem takeExponentMark_of_head {cs : List Char}
    (noMark : ∀ c, cs.head? = some c → c ≠ 'e' ∧ c ≠ 'E') : takeExponentMark cs = [] := by
  unfold takeExponentMark
  split
  · rw [if_neg]
    exact fun mark => mark.elim (noMark _ rfl).1 (noMark _ rfl).2
  · rw [if_neg]
    exact fun mark => mark.elim (noMark _ rfl).1 (noMark _ rfl).2
  · rfl

/-- The parts of a numeral are found again. -/
theorem scanNumber_numeral {whole fraction mark exponent rest : List Char} {n : Number}
    (numeral : Numeral whole fraction mark exponent)
    (value : literalNumber whole fraction mark exponent = n) (finite : n.IsLiteral)
    (apart : Apart rest) :
    scanNumber (whole ++ (fraction ++ (mark ++ (exponent ++ rest)))) =
      .token .numberLiteral (.number n) (whole ++ (fraction ++ (mark ++ exponent))).length := by
  obtain ⟨-, wholeDigits, fractionDigits, exponentDigits⟩ := numeral
  have restDigit : ∀ c, rest.head? = some c → c.isDigit = false := apart.head_not (by decide)
  have exponentHead : ∀ c, (mark ++ (exponent ++ rest)).head? = some c →
      c.isDigit = false ∧ c ≠ '.' := by
    rcases exponentDigits with ⟨rfl, rfl⟩ | ⟨sign, d, ds, -, rfl, rfl, -⟩
    · intro c head
      exact ⟨restDigit c head, apart.head_ne (by decide) c head⟩
    · rintro c ⟨⟩
      exact ⟨rfl, by decide⟩
  have fractionHead : ∀ c, (fraction ++ (mark ++ (exponent ++ rest))).head? = some c →
      c.isDigit = false := by
    rcases fractionDigits with rfl | ⟨d, ds, rfl, -⟩
    · exact fun c head => (exponentHead c head).1
    · rintro c ⟨⟩
      rfl
  have wholeEq :
      (whole ++ (fraction ++ (mark ++ (exponent ++ rest)))).takeWhile Char.isDigit = whole :=
    takeWhile_append_of_head wholeDigits fractionHead
  have fractionEq : takeFraction (fraction ++ (mark ++ (exponent ++ rest))) = fraction := by
    rcases fractionDigits with rfl | ⟨d, ds, rfl, digits⟩
    · refine takeFraction_of_head fun point => (exponentHead '.' point).2 rfl
    · have first : d.isDigit = true := digits d List.mem_cons_self
      have more : (ds ++ (mark ++ (exponent ++ rest))).takeWhile Char.isDigit = ds :=
        takeWhile_append_of_head (fun c member => digits c (List.mem_cons_of_mem _ member))
          fun c head => (exponentHead c head).1
      simp only [takeFraction, List.cons_append, first, if_true, more]
  have markEq : takeExponentMark (mark ++ (exponent ++ rest)) = mark := by
    rcases exponentDigits with ⟨rfl, rfl⟩ | ⟨sign, d, ds, isSign, rfl, rfl, -⟩
    · refine takeExponentMark_of_head fun c head => ?_
      exact ⟨apart.head_ne (by decide) c head, apart.head_ne (by decide) c head⟩
    · simp only [takeExponentMark, List.cons_append, true_or, if_true, isSign]
  have exponentEq : (if mark.isEmpty then [] else (exponent ++ rest).takeWhile Char.isDigit) =
      exponent := by
    rcases exponentDigits with ⟨rfl, rfl⟩ | ⟨sign, d, ds, -, rfl, rfl, digits⟩
    · rfl
    · exact takeWhile_append_of_head digits restDigit
  have complete : (!mark.isEmpty && exponent.isEmpty) = false := by
    rcases exponentDigits with ⟨rfl, rfl⟩ | ⟨sign, d, ds, -, rfl, rfl, -⟩ <;> rfl
  have ended : rest.head?.any isNameStart = false := by
    cases rest with
    | nil => rfl
    | cons c rest => exact apart.head_not (p := isNameStart) (by decide) c rfl
  unfold scanNumber
  dsimp only
  rw [wholeEq, List.drop_left, fractionEq, List.drop_left, markEq, List.drop_left, exponentEq,
    List.drop_left, complete, if_neg Bool.false_ne_true, ended, if_neg Bool.false_ne_true, value,
    List.append_assoc, List.append_assoc]
  cases finite <;> rfl

theorem Reads.number {n : Number} (literal : n.IsLiteral) {rest : List Char} (apart : Apart rest) :
    Reads g (n.text.toList ++ rest) [.of .numberLiteral (.number n)] rest := by
  obtain ⟨whole, fraction, mark, exponent, text, numeral, value⟩ := Number.text_spelled literal
  have found := scanNumber_numeral numeral value literal apart
  obtain ⟨d, ds, rfl⟩ := List.exists_cons_of_ne_nil numeral.wholeNonempty
  have digit : d.isDigit = true := numeral.wholeDigits d List.mem_cons_self
  have start : isGap d = false := test_of_isDigit digit (by decide)
  have ne (c : Char) (other : c.isDigit = false) : d ≠ c := by
    rintro rfl
    rw [other] at digit
    cases digit
  have scanned : scan g d (ds ++ (fraction ++ (mark ++ exponent)) ++ rest) =
      .token .numberLiteral (.number n) ((ds ++ (fraction ++ (mark ++ exponent))).length + 1) := by
    unfold scan
    rw [if_neg (ne '#' rfl), if_neg (fun both => ne '/' rfl both.1),
      if_neg (fun either => either.elim (ne '"' rfl) (ne '\'' rfl)), if_pos digit]
    simpa only [List.append_assoc, List.cons_append, List.length_cons] using found
  rw [text]
  exact .token start scanned nofun .refl

/-! ## Strings -/

theorem charOfNumber_small {c : Char} (small : c.toNat < 32) : charOfNumber c.toNat = c := by
  rw [charOfNumber, if_neg (by omega), Char.ofNat_toNat]

theorem hexNumber_hex : ∀ n < 32, hexNumber? (Text.hex 2 n) = some n := by decide

theorem scanString_plain {c : Char} {rest : List Char} (notEscape : c ≠ '\\') (notQuote : c ≠ '"')
    (notEnd : c ≠ '\n') : scanString '"' (c :: rest) = (scanString '"' rest).prepend c 1 := by
  rw [scanString, if_neg notQuote, if_neg notEnd]
  · exact fun absurd _ => notEscape absurd
  · exact fun _ absurd _ => notEscape absurd
  · exact fun _ absurd _ => notEscape absurd
  · exact fun _ _ absurd _ => notEscape absurd

/-- A character of a string is read back from what is written for it. -/
theorem scanString_literalChar (c : Char) (rest : List Char) :
    scanString '"' (literalChar c ++ rest) =
      (scanString '"' rest).prepend c (literalChar c).length := by
  have short (d e : Char) (simple : literalChar d = ['\\', e]) (escape : escaped? e = some d)
      (notX : e ≠ 'x') (notU : e ≠ 'u') : scanString '"' (literalChar d ++ rest) =
        (scanString '"' rest).prepend d (literalChar d).length := by
    rw [simple]
    dsimp only [List.cons_append, List.nil_append]
    rw [scanString]
    · simp only [escape]
      rfl
    · exact notX
    · exact notU
  by_cases backslash : c = '\\'
  · rw [backslash]
    exact short _ '\\' rfl rfl (by decide) (by decide)
  by_cases quote : c = '"'
  · rw [quote]
    exact short _ '"' rfl rfl (by decide) (by decide)
  by_cases newline : c = '\n'
  · rw [newline]
    exact short _ 'n' rfl rfl (by decide) (by decide)
  by_cases tab : c = '\t'
  · rw [tab]
    exact short _ 't' rfl rfl (by decide) (by decide)
  by_cases carriage : c = '\r'
  · rw [carriage]
    exact short _ 'r' rfl rfl (by decide) (by decide)
  by_cases null : c = '\x00'
  · rw [null]
    exact short _ '0' rfl rfl (by decide) (by decide)
  rw [literalChar, if_neg backslash, if_neg quote, if_neg newline, if_neg tab, if_neg carriage,
    if_neg null]
  by_cases small : c.toNat < 32
  · have digits : Text.hex 2 c.toNat =
        [Text.hexDigit (c.toNat / 16 % 16), Text.hexDigit (c.toNat % 16)] := rfl
    have value := hexNumber_hex c.toNat small
    rw [if_pos small]
    rw [digits] at value ⊢
    dsimp only [List.cons_append, List.nil_append]
    rw [scanString]
    simp only [value, charOfNumber_small small]
    rfl
  · rw [if_neg small]
    exact scanString_plain backslash quote newline

theorem scanString_literal (cs rest : List Char) :
    scanString '"' (cs.flatMap literalChar ++ '"' :: rest) =
      .closed cs ((cs.flatMap literalChar).length + 1) := by
  induction cs with
  | nil => rfl
  | cons c cs ih =>
    rw [List.flatMap_cons, List.append_assoc, scanString_literalChar, ih, StringScan.prepend,
      List.length_append, Nat.add_assoc]

theorem Reads.string (s : String) (rest : List Char) :
    Reads g ((stringLiteral s).toList ++ rest) [.of .stringLiteral (.text s)] rest := by
  have text : (stringLiteral s).toList ++ rest =
      '"' :: ((s.toList.flatMap literalChar ++ ['"']) ++ rest) := by
    rw [stringLiteral, String.toList_ofList]
    simp
  rw [text]
  refine .token rfl ?_ nofun .refl
  have unfolded : scan g '"' ((s.toList.flatMap literalChar ++ ['"']) ++ rest) =
      scanQuoted '"' (s.toList.flatMap literalChar ++ '"' :: rest) := by
    rw [List.append_assoc]
    rfl
  rw [unfolded, scanQuoted, scanString_literal]
  simp

/-! ## Symbols -/

/-- The symbols that are found whatever follows them. -/
theorem Reads.symbol {c : Char} {kind : TokenKind}
    (member : (c, kind) ∈
      [('(', TokenKind.leftParen), (')', .rightParen), (',', .comma), ('-', .minus)])
    (rest : List Char) : Reads g (c :: rest) [⟨kind, .nothing⟩] rest := by
  simp only [List.mem_cons, Prod.mk.injEq, List.not_mem_nil, or_false] at member
  rcases member with ⟨rfl, rfl⟩ | ⟨rfl, rfl⟩ | ⟨rfl, rfl⟩ | ⟨rfl, rfl⟩
  · exact .single rfl (by cases rest <;> rfl) nofun
  · exact .single rfl (by cases rest <;> rfl) nofun
  · exact .single rfl (by cases rest <;> rfl) nofun
  · exact .single rfl (by cases rest <;> rfl) nofun

/-- A sign of equality with another one behind it is a different symbol. -/
theorem Reads.assign {rest : List Char} (single : rest.head? ≠ some '=') :
    Reads g ('=' :: rest) [⟨.assign, .nothing⟩] rest := by
  have found : scan g '=' rest = .token .assign (.text "=") 1 := by
    cases rest with
    | nil => rfl
    | cons d rest =>
      have other : (('=', d) == ('=', '=')) = false := by
        rw [beq_eq_false_iff_ne, ne_eq, Prod.mk.injEq]
        exact fun eq => single (by rw [eq.2]; rfl)
      have notDouble : doubleSymbol? '=' d = none := by
        unfold doubleSymbol?
        rw [List.lookup_cons, other]
        rfl
      have symbol : scan g '=' (d :: rest) = scanSymbol '=' (d :: rest) := rfl
      rw [symbol, scanSymbol, notDouble]
      rfl
  exact .single rfl found nofun

/-! ## Keywords and operators -/

/-- The words of one of the versions. -/
def Grammar.Standard (g : Grammar) : Prop :=
  g.keywords = Grammar.coreKeywords ∨ g.keywords = Grammar.coreKeywords ++ Grammar.loopKeywords

/-- The words of loops are among them. -/
def Grammar.HasLoopWords (g : Grammar) : Prop :=
  g.keywords = Grammar.coreKeywords ++ Grammar.loopKeywords

theorem keyword_core (standard : g.Standard) {word : String} {kind : TokenKind}
    (member : (word, kind) ∈ Grammar.coreKeywords) : g.keyword? word = some kind := by
  have lower : ∀ entry ∈ Grammar.coreKeywords, lowerAscii entry.1 = entry.1 ∧
      Grammar.coreKeywords.lookup entry.1 = some entry.2 ∧
      (Grammar.coreKeywords ++ Grammar.loopKeywords).lookup entry.1 = some entry.2 := by decide
  obtain ⟨small, core, all⟩ := lower _ member
  unfold Grammar.keyword?
  dsimp only at small core all
  rw [small, ite_self]
  rcases standard with words | words <;> rw [words] <;> assumption

theorem keyword_loop (loopWords : g.HasLoopWords) {word : String} {kind : TokenKind}
    (member : (word, kind) ∈ Grammar.loopKeywords) : g.keyword? word = some kind := by
  have lower : ∀ entry ∈ Grammar.loopKeywords, lowerAscii entry.1 = entry.1 ∧
      (Grammar.coreKeywords ++ Grammar.loopKeywords).lookup entry.1 = some entry.2 := by decide
  obtain ⟨small, all⟩ := lower _ member
  unfold Grammar.keyword?
  dsimp only at small all
  rw [small, ite_self, loopWords, all]

end

end InstallScript
