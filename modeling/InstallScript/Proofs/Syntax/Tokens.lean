import InstallScript.Proofs.Syntax.Comment

/-!
The tokens of a text. What they stand for is what can be written (`tokensFrom_lexed`): names are
names of the language, numbers are finite and not negative, comments have no blanks around them. In
the other direction, a text that is read token by token to its end has these tokens and one for the
end (`tokensFrom_of_reads`).
-/

namespace InstallScript

/-! ## What tokens stand for -/

/-- The kinds of the words of loops. -/
def loopKinds : List TokenKind := Grammar.loopKeywords.map (·.2)

/-- What a token of a text may stand for. -/
structure Lexed (g : Grammar) (kind : TokenKind) (value : TokenValue) : Prop where
  name : kind = .identifier → ∃ name, value = .text name ∧ IsName g name
  number : kind = .numberLiteral → ∃ n, value = .number n ∧ n.IsLiteral
  string : kind = .stringLiteral → ∃ s, value = .text s
  truth : kind = .boolLiteral → ∃ b, value = .bool b
  comment : kind = .comment → ∃ text, value = .text text ∧ IsComment text
  loop : kind ∈ loopKinds → g.HasLoopWords

section

variable {g : Grammar}

theorem Lexed.of_plain {kind : TokenKind} {value : TokenValue} (noValue : kind ∉ valuedKinds)
    (loop : kind ∈ loopKinds → g.HasLoopWords) : Lexed g kind value := by
  refine ⟨?_, ?_, ?_, ?_, ?_, loop⟩ <;> (rintro rfl; exact absurd (by decide) noValue)

theorem Lexed.of_comment {kind : TokenKind} {value : TokenValue}
    (found : kind = .comment ∧ ∃ text, value = .text text ∧ IsComment text) :
    Lexed g kind value := by
  obtain ⟨rfl, isComment⟩ := found
  exact ⟨nofun, nofun, nofun, nofun, fun _ => isComment, fun loop => absurd loop (by decide)⟩

theorem exists_of_lookup {α β : Type} [BEq α] {entries : List (α × β)} {key : α} {b : β}
    (found : entries.lookup key = some b) : ∃ entry ∈ entries, entry.2 = b := by
  induction entries with
  | nil => cases found
  | cons entry entries ih =>
    rw [List.lookup_cons] at found
    split at found
    · cases found
      exact ⟨entry, List.mem_cons_self, rfl⟩
    · obtain ⟨other, member, eq⟩ := ih found
      exact ⟨other, List.mem_cons_of_mem _ member, eq⟩

theorem scanQuoted_lexed {quote : Char} {rest : List Char} {kind : TokenKind} {value : TokenValue}
    {length : Nat} (found : scanQuoted quote rest = .token kind value length) :
    Lexed g kind value := by
  unfold scanQuoted at found
  split at found
  · cases found
    exact ⟨nofun, nofun, fun _ => ⟨_, rfl⟩, nofun, nofun, fun loop => absurd loop (by decide)⟩
  · cases found
  · cases found

theorem literalNumber_isLiteral {whole fraction mark exponent : List Char}
    (finite : ∀ negative,
      literalNumber whole fraction mark exponent ≠ .float (.infinite negative)) :
    (literalNumber whole fraction mark exponent).IsLiteral := by
  revert finite
  unfold literalNumber
  split
  · exact fun _ => .int _
  · dsimp only
    generalize Decimal.ofParts _ _ _ = d
    intro finite
    have canonical := Binary64.ofDecimal_canonical false d
    rcases Binary64.ofDecimal_false d with infinite | ⟨m, e, eq⟩
    · exact absurd (by rw [infinite]) (finite false)
    · rw [eq] at canonical ⊢
      exact .float canonical

/-- A number literal that is neither refused for its form nor too large. -/
theorem Lexed.of_number {P Q : Prop} [Decidable P] [Decidable Q]
    {whole fraction mark exponent : List Char} {f f' : Fault} {i j i' j' size length : Nat}
    {kind : TokenKind} {value : TokenValue}
    (found : (if P then Scan.fault f i j else if Q then .fault f' i' j' else
      match literalNumber whole fraction mark exponent with
      | .float (.infinite _) => .fault f i j
      | number => .token .numberLiteral (.number number) size) = .token kind value length) :
    Lexed g kind value := by
  split at found
  · cases found
  split at found
  · cases found
  split at found
  · cases found
  · rename_i finite
    cases found
    exact ⟨nofun, fun _ => ⟨_, rfl, literalNumber_isLiteral finite⟩, nofun, nofun, nofun,
      fun loop => absurd loop (by decide)⟩

theorem scanNumber_lexed {cs : List Char} {kind : TokenKind} {value : TokenValue} {length : Nat}
    (found : scanNumber cs = .token kind value length) : Lexed g kind value := by
  unfold scanNumber at found
  exact .of_number found

theorem singleSymbol?_plain {c : Char} {kind : TokenKind} (found : singleSymbol? c = some kind) :
    kind ∉ valuedKinds ∧ kind ∉ loopKinds := by
  obtain ⟨entry, member, rfl⟩ := exists_of_lookup found
  clear found
  revert entry
  decide

theorem doubleSymbol?_plain {c d : Char} {kind : TokenKind}
    (found : doubleSymbol? c d = some kind) :
    kind ∉ valuedKinds ∧ kind ∉ loopKinds := by
  obtain ⟨entry, member, rfl⟩ := exists_of_lookup found
  clear found
  revert entry
  decide

theorem scanSymbol_lexed {c : Char} {rest : List Char} {kind : TokenKind} {value : TokenValue}
    {length : Nat} (found : scanSymbol c rest = .token kind value length) : Lexed g kind value := by
  have single (found : scanSingle c = .token kind value length) : Lexed g kind value := by
    unfold scanSingle at found
    split at found
    · rename_i isSymbol
      cases found
      obtain ⟨noValue, noLoop⟩ := singleSymbol?_plain isSymbol
      exact .of_plain noValue fun loop => absurd loop noLoop
    · cases found
  unfold scanSymbol at found
  split at found
  · exact single found
  · split at found
    · rename_i isSymbol
      cases found
      obtain ⟨noValue, noLoop⟩ := doubleSymbol?_plain isSymbol
      exact .of_plain noValue fun loop => absurd loop noLoop
    · exact single found

theorem isNamePart_of_isNameStart {c : Char} (start : isNameStart c = true) :
    isNamePart c = true := by
  unfold isNameStart at start
  unfold isNamePart
  rw [Bool.or_eq_true] at start ⊢
  refine start.imp_left fun letter => ?_
  unfold Text.isLetter at letter
  unfold Text.isAlphanumeric
  by_cases ascii : c.toNat < 128
  · rw [if_pos ascii] at letter ⊢
    rw [Char.isAlphanum, letter, Bool.true_or]
  · rw [if_neg ascii] at letter ⊢
    rw [letter, Bool.true_or]

theorem keyword?_kinds (standard : g.Standard) {word : String} {kind : TokenKind}
    (found : g.keyword? word = some kind) :
    (kind ∈ valuedKinds → kind = .boolLiteral) ∧ (kind ∈ loopKinds → g.HasLoopWords) := by
  obtain ⟨entry, member, rfl⟩ := exists_of_lookup found
  rcases standard with words | words
  · rw [words] at member
    have core : ∀ entry ∈ Grammar.coreKeywords,
        (entry.2 ∈ valuedKinds → entry.2 = .boolLiteral) ∧ entry.2 ∉ loopKinds := by decide
    exact ⟨(core entry member).1, fun loop => absurd loop (core entry member).2⟩
  · rw [words] at member
    have all : ∀ entry ∈ Grammar.coreKeywords ++ Grammar.loopKeywords,
        entry.2 ∈ valuedKinds → entry.2 = .boolLiteral := by decide
    exact ⟨all entry member, fun _ => words⟩

theorem scanWord_lexed (standard : g.Standard) {c : Char} {rest : List Char} {kind : TokenKind}
    {value : TokenValue} {length : Nat} (start : isNameStart c = true)
    (found : scanWord g (c :: rest) = .token kind value length) : Lexed g kind value := by
  unfold scanWord at found
  dsimp only at found
  split at found
  · rename_i free
    cases found
    refine ⟨fun _ => ⟨_, rfl, ⟨c, rest.takeWhile isNamePart, ?_, start⟩, ?_, free⟩, nofun, nofun,
      nofun,
      nofun, fun loop => absurd loop (by decide)⟩
    · rw [String.toList_ofList, List.takeWhile_cons_of_pos (isNamePart_of_isNameStart start)]
    · rw [String.toList_ofList]
      exact List.all_eq_true.1 List.all_takeWhile
  · cases found
    exact ⟨nofun, nofun, nofun, fun _ => ⟨_, rfl⟩, nofun, fun loop => absurd loop (by decide)⟩
  · rename_i notTruth isKeyword
    cases found
    obtain ⟨onlyTruth, loop⟩ := keyword?_kinds standard isKeyword
    exact .of_plain (fun valued => notTruth (onlyTruth valued)) loop

theorem scan_lexed (standard : g.Standard) {c : Char} {rest : List Char} {kind : TokenKind}
    {value : TokenValue} {length : Nat} (found : scan g c rest = .token kind value length) :
    Lexed g kind value := by
  unfold scan at found
  split at found
  · exact .of_comment (scanLineComment_value found)
  split at found
  · exact .of_comment (scanBlockComment_value found)
  split at found
  · exact scanQuoted_lexed found
  split at found
  · exact scanNumber_lexed found
  split at found
  · exact scanWord_lexed standard ‹_› found
  · exact scanSymbol_lexed found

/-! ## Tokens of a text -/

namespace TokenStream

variable {file : Option String} {lines : List String}

theorem endToken_lexed {place : Location} :
    Lexed g (endToken file place).kind (endToken file place).value := by
  refine .of_plain ?_ ?_
  · exact (by decide : TokenKind.endOfInput ∉ valuedKinds)
  · exact fun loop => absurd loop (by decide : TokenKind.endOfInput ∉ loopKinds)

/-- Every token of a text stands for what a token may stand for, and comments are among the tokens
only if they are kept. -/
theorem tokensFrom_lexed (standard : g.Standard) : ∀ (steps : Nat) (place : Location)
    (cs : List Char), ∀ t ∈ (tokensFrom g file lines steps place cs).tokens,
      Lexed g t.kind t.value ∧ (t.kind = .comment → g.retainComments = true)
  | 0, place, cs, t, member => by
    rw [tokensFrom] at member
    obtain rfl := List.mem_singleton.1 member
    exact ⟨endToken_lexed, nofun⟩
  | steps + 1, place, cs, t, member => by
    unfold tokensFrom at member
    dsimp only at member
    split at member
    · obtain rfl := List.mem_singleton.1 member
      exact ⟨endToken_lexed, nofun⟩
    · split at member
      · cases member
      · rename_i kind value length found
        split at member
        · exact tokensFrom_lexed standard steps _ _ t member
        · rename_i kept
          rcases List.mem_cons.1 member with rfl | later
          · refine ⟨scan_lexed standard found, fun isComment => ?_⟩
            exact Bool.not_eq_false _ ▸ fun dropped => kept ⟨isComment, dropped⟩
          · exact tokensFrom_lexed standard steps _ _ t later

/-- White space in front of a text is skipped. -/
theorem tokensFrom_blanks (blanks : List Char) (areBlank : ∀ c ∈ blanks, isGap c = true)
    (steps : Nat) (place : Location) (cs : List Char) :
    tokensFrom g file lines (steps + 1) place (blanks ++ cs) =
      tokensFrom g file lines (steps + 1) (place.after blanks) cs := by
  rw [tokensFrom, tokensFrom, List.takeWhile_append_of_pos areBlank, Location.after_append,
    List.dropWhile_append_of_pos areBlank]

/-- What is found at the head of a text is taken from it, and becomes a token unless it is a comment
and comments are dropped. -/
theorem tokensFrom_found {c : Char} {lexeme rest : List Char} {kind : TokenKind}
    {value : TokenValue} (start : isGap c = false)
    (found : scan g c (lexeme ++ rest) = .token kind value (lexeme.length + 1)) (steps : Nat)
    (place : Location) :
    tokensFrom g file lines (steps + 1) place (c :: (lexeme ++ rest)) =
      if kind = .comment ∧ g.retainComments = false then
        tokensFrom g file lines steps (place.after (c :: lexeme)) rest
      else
        cons ⟨kind, value, String.ofList (c :: lexeme), ⟨place, place.after (c :: lexeme), file⟩⟩
          (tokensFrom g file lines steps (place.after (c :: lexeme)) rest) := by
  have notGap : ¬ isGap c = true := by simp [start]
  have taken : (c :: (lexeme ++ rest)).take (lexeme.length + 1) = c :: lexeme := by
    rw [List.take_succ_cons, List.take_left]
  have left : (c :: (lexeme ++ rest)).drop (lexeme.length + 1) = rest := by
    rw [List.drop_succ_cons, List.drop_left]
  rw [tokensFrom]
  simp only [List.takeWhile_cons_of_neg notGap, List.dropWhile_cons_of_neg notGap,
    Location.after_nil, found, taken, left]

/-- A lexeme that is found at the head of a text becomes a token there. -/
theorem tokensFrom_token {c : Char} {lexeme rest : List Char} {kind : TokenKind}
    {value : TokenValue} (start : isGap c = false)
    (found : scan g c (lexeme ++ rest) = .token kind value (lexeme.length + 1))
    (kept : kind = .comment → g.retainComments = true) (steps : Nat) (place : Location) :
    tokensFrom g file lines (steps + 1) place (c :: (lexeme ++ rest)) =
      cons ⟨kind, value, String.ofList (c :: lexeme), ⟨place, place.after (c :: lexeme), file⟩⟩
        (tokensFrom g file lines steps (place.after (c :: lexeme)) rest) := by
  rw [tokensFrom_found start found, if_neg]
  rintro ⟨isComment, dropped⟩
  rw [kept isComment] at dropped
  cases dropped

/-- A text that is read to its end has the tokens that are read, and one for its end. -/
theorem tokensFrom_of_reads {cs : List Char} {ms : List Mark} (reads : Reads g cs ms []) :
    ∀ (steps : Nat) (place : Location), cs.length < steps →
      ∃ tokens stop, tokensFrom g file lines steps place cs =
        ⟨tokens ++ [endToken file stop], .finished⟩ ∧ tokens.map Token.mark = ms := by
  generalize ends : ([] : List Char) = rest at reads
  induction reads with
  | refl =>
    subst ends
    intro steps place bound
    obtain ⟨steps, rfl⟩ := Nat.exists_eq_add_of_le' (show 1 ≤ steps by omega)
    exact ⟨[], _, rfl, rfl⟩
  | @gap c cs rest ms blank _ ih =>
    intro steps place bound
    rw [List.length_cons] at bound
    obtain ⟨steps, rfl⟩ := Nat.exists_eq_add_of_le' (show 1 ≤ steps by omega)
    obtain ⟨tokens, stop, eq, marks⟩ := ih ends (steps + 1) (place.next c) (by omega)
    refine ⟨tokens, stop, ?_, marks⟩
    rw [← eq]
    exact tokensFrom_blanks [c] (List.forall_mem_singleton.2 blank) steps place cs
  | @token c lexeme cs rest kind value ms start found kept _ ih =>
    intro steps place bound
    rw [List.length_cons, List.length_append] at bound
    obtain ⟨steps, rfl⟩ := Nat.exists_eq_add_of_le' (show 1 ≤ steps by omega)
    obtain ⟨tokens, stop, eq, marks⟩ :=
      ih ends steps (place.after (c :: lexeme)) (by omega)
    refine ⟨⟨kind, value, String.ofList (c :: lexeme), ⟨place, place.after (c :: lexeme), file⟩⟩ ::
      tokens, stop, ?_, ?_⟩
    · rw [tokensFrom_token start found kept, eq]
      rfl
    · rw [List.map_cons, marks]
      rfl

end TokenStream

end

end InstallScript
