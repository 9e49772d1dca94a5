import InstallScript.Proofs.Syntax.Rescanned
import InstallScript.Proofs.Syntax.AlikeTokens
import InstallScript.Proofs.Syntax.Bare

/-!
Layout does not matter. Where comments are dropped, the lexemes of a text can be set apart in any
other way, by white space and whole comments: the new text has the same tokens at other places, and
is read as an equal tree or refused for the same fault (`layout_irrelevant`).
-/

namespace InstallScript

/-! ## What sets lexemes apart -/

/-- Comments are open in front of a text, as many as given. They and the comments in the text are
closed at its end, not before. -/
inductive EndsComments : Nat → List Char → Prop
  | none : EndsComments 0 []
  | opening {depth : Nat} {cs : List Char} (more : EndsComments (depth + 2) cs) :
    EndsComments (depth + 1) ('/' :: '*' :: cs)
  | closing {depth : Nat} {cs : List Char} (more : EndsComments depth cs) :
    EndsComments (depth + 1) ('*' :: '/' :: cs)
  | other {depth : Nat} {c : Char} {cs : List Char}
      (noMark : ∀ d, cs.head? = some d → isMark c d = false) (more : EndsComments (depth + 1) cs) :
    EndsComments (depth + 1) (c :: cs)

/-- The end of the comments is found, whatever follows it. -/
theorem EndsComments.length {depth : Nat} {cs : List Char} (closes : EndsComments depth cs)
    (more : List Char) : commentLength? depth (cs ++ more) = some cs.length := by
  induction closes with
  | none =>
    rw [commentLength?]
    rfl
  | opening _ ih =>
    dsimp only [List.cons_append]
    rw [commentLength?, ih]
    rfl
  | closing _ ih =>
    dsimp only [List.cons_append]
    rw [commentLength?, ih]
    rfl
  | @other depth c cs noMark closes ih =>
    cases cs with
    | nil => cases closes
    | cons d cs =>
      have noMark' : ∀ e, (d :: cs ++ more).head? = some e → isMark c e = false := noMark
      rw [List.cons_append, commentLength?_plain noMark', ih]
      rfl

/-- White space and whole comments, one after another. A comment that ends with its line takes the
line feed with it; one between marks ends where it and the comments in it are closed. -/
inductive Mix : List Char → Prop
  | none : Mix []
  | blank {c : Char} {cs : List Char} (isBlank : isGap c = true) (more : Mix cs) : Mix (c :: cs)
  | line {body cs : List Char} (oneLine : '\n' ∉ body) (more : Mix cs) :
    Mix ('#' :: (body ++ '\n' :: cs))
  | marked {body cs : List Char} (closes : EndsComments 1 body) (more : Mix cs) :
    Mix ('/' :: '*' :: (body ++ cs))

/-- Lexemes in order, each with a mix behind it, which is empty at most behind the last one. -/
inductive Spaced : List (List Char) → List Char → Prop
  | nil : Spaced [] []
  | cons {lexeme mix rest : List Char} {others : List (List Char)} (behind : Mix mix)
      (apart : others ≠ [] → mix ≠ []) (more : Spaced others rest) :
      Spaced (lexeme :: others) (lexeme ++ (mix ++ rest))

/-- A text of lexemes in order that are set apart, perhaps with a mix in front of them. -/
def SpreadOver (lexemes : List (List Char)) (text : List Char) : Prop :=
  ∃ mix rest, Mix mix ∧ Spaced lexemes rest ∧ text = mix ++ rest

theorem clearing_of_gap {c : Char} (isBlank : isGap c = true) : c ∈ clearings := by
  simp only [isGap, Bool.or_eq_true, decide_eq_true_eq] at isBlank
  simp only [clearings, List.mem_cons]
  tauto

theorem Mix.clear {mix rest : List Char} (isMix : Mix mix) (some : mix ≠ []) :
    Clear (mix ++ rest) := by
  cases isMix with
  | none => exact absurd rfl some
  | blank isBlank _ => exact .cons (clearing_of_gap isBlank)
  | line _ _ => exact .cons (by decide +kernel)
  | marked _ _ => exact .cons (by decide +kernel)

/-- What follows a lexeme does not go on with it. -/
theorem Spaced.clear {mix rest : List Char} {others : List (List Char)}
    (more : Spaced others rest) (behind : Mix mix) (apart : others ≠ [] → mix ≠ []) :
    Clear (mix ++ rest) := by
  cases mix with
  | nil =>
    cases more with
    | nil => exact .nil
    | cons => exact absurd rfl (apart nofun)
  | cons c mix => exact behind.clear nofun

section

variable {g : Grammar} {file : Option String} {lines : List String}

theorem scan_line {body : List Char} (oneLine : '\n' ∉ body) (rest : List Char) :
    scan g '#' (body ++ '\n' :: rest) =
      .token .comment (.text (String.ofList (Text.strip body))) (body.length + 1) := by
  have taken : (body ++ '\n' :: rest).takeWhile (fun c => decide (c ≠ '\n')) = body := by
    refine takeWhile_append_of_head (fun c member => ?_) fun c head => ?_
    · exact decide_eq_true (ne_of_mem_of_not_mem member oneLine)
    · cases head
      rfl
  rw [scan, if_pos rfl, scanLineComment, taken]

theorem scan_marked {body : List Char} (closes : EndsComments 1 body) (rest : List Char) :
    scan g '/' ('*' :: body ++ rest) =
      .token .comment
        (.text (String.ofList (Text.strip ((body ++ rest).take (body.length - 2)))))
        (('*' :: body).length + 1) := by
  rw [scan, if_neg (by decide), if_pos ⟨rfl, rfl⟩, List.cons_append, List.drop_succ_cons,
    List.drop_zero, scanBlockComment, closes.length rest]
  rfl

/-! ## Tokens that are found again -/

/-- Literals are finite, so they are equal to themselves. -/
theorem literal_of_scanNumber {cs : List Char} {kind : TokenKind} {n : Number} {length : Nat}
    (found : scanNumber cs = .token kind (.number n) length) : n.IsLiteral := by
  unfold scanNumber at found
  dsimp only at found
  generalize takeExponentMark _ = mark at found
  generalize (if mark.isEmpty then [] else _) = exponent at found
  split at found
  · cases found
  split at found
  · cases found
  split at found
  · cases found
  · rename_i finite
    cases found
    exact literalNumber_isLiteral finite

theorem comparable_of_scan {c : Char} {cs : List Char} {kind : TokenKind} {value : TokenValue}
    {length : Nat} (found : scan g c cs = .token kind value length) (n : Number)
    (isNumber : value = .number n) : n.same n = true := by
  subst isNumber
  refine Number.IsLiteral.same_self ?_
  unfold scan at found
  split at found
  · cases found
  split at found
  · unfold scanBlockComment at found
    split at found <;> cases found
  split at found
  · unfold scanQuoted at found
    split at found <;> cases found
  split at found
  · exact literal_of_scanNumber found
  split at found
  · unfold scanWord at found
    dsimp only at found
    split at found <;> cases found
  · have single (found : scanSingle c = .token kind (.number n) length) : False := by
      unfold scanSingle at found
      split at found <;> cases found
    unfold scanSymbol at found
    split at found
    · exact (single found).elim
    · split at found
      · cases found
      · exact (single found).elim

theorem literalOf_same {t : Token} (comparable : ∀ n, t.value = .number n → n.same n = true) :
    (Parser.literalOf t).same (Parser.literalOf t) = true := by
  unfold Parser.literalOf
  split
  · exact comparable _ ‹_›
  · exact decide_eq_true rfl
  · exact decide_eq_true rfl
  · exact decide_eq_true rfl

/-- A token that is found again from its lexeme, in front of white space, of a comment and of
nothing. -/
structure Token.Lasting (g : Grammar) (t : Token) : Prop where
  proper : t.kind ≠ .comment
  again : ∃ c lexeme, t.lexeme = String.ofList (c :: lexeme) ∧ isGap c = false ∧
    ∀ more, Clear more → scan g c (lexeme ++ more) = .token t.kind t.value (lexeme.length + 1)
  comparable : (Parser.literalOf t).same (Parser.literalOf t) = true

namespace TokenStream

/-- A comment that is found at the head of a text is skipped where comments are dropped. -/
theorem tokensFrom_comment (dropped : g.retainComments = false) {c : Char}
    {lexeme rest : List Char} {value : TokenValue} (start : isGap c = false)
    (found : scan g c (lexeme ++ rest) = .token .comment value (lexeme.length + 1)) (steps : Nat)
    (place : Location) :
    tokensFrom g file lines (steps + 1) place (c :: (lexeme ++ rest)) =
      tokensFrom g file lines steps (place.after (c :: lexeme)) rest := by
  rw [tokensFrom_found start found, if_pos ⟨rfl, dropped⟩]

/-- White space and comments are skipped where comments are dropped. -/
theorem tokensFrom_mix (file : Option String) (lines : List String)
    (dropped : g.retainComments = false) {mix : List Char} (isMix : Mix mix)
    (rest : List Char) : ∀ (steps : Nat) (place : Location), (mix ++ rest).length < steps →
      ∃ steps', rest.length < steps' ∧ tokensFrom g file lines steps place (mix ++ rest) =
        tokensFrom g file lines steps' (place.after mix) rest := by
  induction isMix with
  | none => exact fun steps place bound => ⟨steps, bound, rfl⟩
  | @blank c cs isBlank _ ih =>
    intro steps place bound
    rw [List.cons_append, List.length_cons] at bound
    obtain ⟨steps, rfl⟩ := Nat.exists_eq_add_of_le' (show 1 ≤ steps by omega)
    obtain ⟨steps', enough, eq⟩ := ih (steps + 1) (place.next c) (by omega)
    refine ⟨steps', enough, ?_⟩
    rw [Location.after_cons, ← eq]
    exact tokensFrom_blanks [c] (List.forall_mem_singleton.2 isBlank) steps place _
  | @line body cs oneLine _ ih =>
    intro steps place bound
    have found := scan_line (g := g) oneLine (cs ++ rest)
    have text : '#' :: (body ++ '\n' :: cs) ++ rest = '#' :: (body ++ '\n' :: (cs ++ rest)) := by
      simp
    rw [text, List.length_cons, List.length_append, List.length_cons] at bound
    obtain ⟨steps, rfl⟩ := Nat.exists_eq_add_of_le' (show 2 ≤ steps by omega)
    obtain ⟨steps', enough, eq⟩ :=
      ih (steps + 1) ((place.after ('#' :: body)).next '\n') (by omega)
    refine ⟨steps', enough, ?_⟩
    have places : place.after ('#' :: (body ++ '\n' :: cs)) =
        ((place.after ('#' :: body)).next '\n').after cs := by
      rw [← List.cons_append, Location.after_append, Location.after_cons]
    rw [text, tokensFrom_comment dropped (by decide) found, places, ← eq]
    exact tokensFrom_blanks ['\n'] (List.forall_mem_singleton.2 rfl) steps _ _
  | @marked body cs closes _ ih =>
    intro steps place bound
    have found := scan_marked (g := g) closes (cs ++ rest)
    have text : '/' :: '*' :: (body ++ cs) ++ rest = '/' :: ('*' :: body ++ (cs ++ rest)) := by
      simp
    rw [text, List.length_cons, List.length_append] at bound
    obtain ⟨steps, rfl⟩ := Nat.exists_eq_add_of_le' (show 1 ≤ steps by omega)
    obtain ⟨steps', enough, eq⟩ := ih steps (place.after ('/' :: '*' :: body)) (by omega)
    refine ⟨steps', enough, ?_⟩
    have places : place.after ('/' :: '*' :: (body ++ cs)) =
        (place.after ('/' :: '*' :: body)).after cs := by
      rw [← Location.after_append]
      rfl
    rw [text, tokensFrom_comment dropped (by decide) found, places, ← eq]

/-- The tokens of a text without comments are found again, and one ends the text. -/
theorem tokensFrom_lasting (dropped : g.retainComments = false) :
    ∀ (steps : Nat) (place : Location) (cs : List Char) {tokens : List Token},
      tokensFrom g file lines steps place cs = ⟨tokens, .finished⟩ →
        ∃ ts stop, tokens = ts ++ [endToken file stop] ∧ ∀ t ∈ ts, t.Lasting g
  | 0, place, cs, tokens, stream => by
    rw [tokensFrom] at stream
    cases stream
    exact ⟨[], place, rfl, List.forall_mem_nil _⟩
  | steps + 1, place, cs, tokens, stream => by
    unfold tokensFrom at stream
    dsimp only at stream
    split at stream
    · cases stream
      exact ⟨[], _, rfl, List.forall_mem_nil _⟩
    rename_i c rest head
    split at stream
    · cases stream
    rename_i kind value length found
    split at stream
    · exact tokensFrom_lasting dropped steps _ _ stream
    rename_i kept
    have proper : kind ≠ .comment := fun isComment => kept ⟨isComment, dropped⟩
    obtain ⟨lexeme, behind, rfl, rfl, again⟩ := scan_again found proper
    have start : isGap c = false := head_dropWhile cs c (by rw [head]; rfl)
    rw [List.take_succ_cons, List.take_left, List.drop_succ_cons, List.drop_left] at stream
    generalize others : tokensFrom g file lines steps _ _ = more at stream
    obtain ⟨moreTokens, moreEnding⟩ := more
    cases stream
    obtain ⟨ts, stop, rfl, lasting⟩ := tokensFrom_lasting dropped steps _ _ others
    refine ⟨_ :: ts, stop, rfl, List.forall_mem_cons.2 ⟨⟨proper, ?_, ?_⟩, lasting⟩⟩
    · exact ⟨c, lexeme, rfl, start, again⟩
    · exact literalOf_same (comparable_of_scan found)

/-- Lexemes that are set apart are read as the tokens they are taken from. -/
theorem tokensFrom_spaced (file : Option String) (lines : List String)
    (dropped : g.retainComments = false) {ts : List Token}
    (lasting : ∀ t ∈ ts, t.Lasting g) : ∀ {text : List Char},
      Spaced (ts.map (·.lexeme.toList)) text → ∀ (steps : Nat) (place : Location),
        text.length < steps → ∃ ts' stop, tokensFrom g file lines steps place text =
            ⟨ts' ++ [endToken file stop], .finished⟩ ∧ List.Forall₂ Token.Alike ts ts' := by
  induction ts with
  | nil =>
    intro text spaced steps place bound
    cases spaced
    obtain ⟨steps, rfl⟩ := Nat.exists_eq_add_of_le' (show 1 ≤ steps by omega)
    exact ⟨[], _, rfl, .nil⟩
  | cons t ts ih =>
    intro text spaced steps place bound
    obtain ⟨⟨proper, ⟨c, lexeme, written, start, again⟩, comparable⟩, others⟩ :=
      List.forall_mem_cons.1 lasting
    rw [List.map_cons, written, String.toList_ofList] at spaced
    cases spaced with
    | @cons _ mix rest _ behind apart more =>
      rw [List.cons_append] at bound ⊢
      rw [List.length_cons, List.length_append] at bound
      obtain ⟨steps, rfl⟩ := Nat.exists_eq_add_of_le' (show 1 ≤ steps by omega)
      obtain ⟨steps', enough, skipped⟩ := tokensFrom_mix file lines dropped behind rest
        steps (place.after (c :: lexeme)) (by omega)
      obtain ⟨ts', stop, stream, alike⟩ := ih others more steps' _ enough
      rw [tokensFrom_token start (again _ (more.clear behind apart))
        (fun isComment => absurd isComment proper) steps place, skipped, stream]
      refine ⟨⟨t.kind, t.value, String.ofList (c :: lexeme),
        ⟨place, place.after (c :: lexeme), file⟩⟩ :: ts', stop, ?_, ?_⟩
      · rfl
      · exact .cons ⟨rfl, rfl, written, comparable⟩ alike

end TokenStream

end

/-! ## Texts -/

/-- A token without its place: its kind, what it stands for and how it is written. -/
def Token.unplaced (t : Token) : TokenKind × TokenValue × String := (t.kind, t.value, t.lexeme)

theorem Token.Alike.unplaced {tokens tokens' : List Token}
    (alike : List.Forall₂ Token.Alike tokens tokens') :
    tokens'.map Token.unplaced = tokens.map Token.unplaced := by
  induction alike with
  | nil => rfl
  | cons first _ ih =>
    rw [List.map_cons, List.map_cons, ih, Token.unplaced, Token.unplaced, first.kind, first.value,
      first.lexeme]

/-- Layout does not matter where comments are dropped. A text of the lexemes of another one, in
order and set apart by white space and whole comments in any way, has the same tokens but for their
places, and is read as an equal tree, or refused for the same fault. -/
theorem layout_irrelevant (g : Grammar) (dropped : g.retainComments = false) (source : Source)
    (finished : (TokenStream.ofSource g source).ending = .finished) (text : List Char)
    (file : Option String)
    (spread : SpreadOver
      ((TokenStream.ofSource g source).tokens.dropLast.map (·.lexeme.toList)) text) :
    (TokenStream.ofSource g ⟨text, file⟩).ending = .finished ∧
      (TokenStream.ofSource g ⟨text, file⟩).tokens.map Token.unplaced =
        (TokenStream.ofSource g source).tokens.map Token.unplaced ∧
      ReadAlike (Block.ofSource g source) (Block.ofSource g ⟨text, file⟩) := by
  generalize stream : TokenStream.ofSource g source = s at finished spread ⊢
  obtain ⟨tokens, ending⟩ := s
  obtain rfl : ending = .finished := finished
  obtain ⟨ts, stop, rfl, lasting⟩ := TokenStream.tokensFrom_lasting dropped _ _ _ stream
  obtain ⟨mix, rest, isMix, spaced, rfl⟩ := spread
  dsimp only at spaced
  rw [List.dropLast_concat] at spaced
  obtain ⟨steps, enough, skipped⟩ := TokenStream.tokensFrom_mix file
    (Source.lines ⟨mix ++ rest, file⟩) dropped isMix rest _ {} (Nat.lt_succ_self _)
  obtain ⟨ts', stop', stream', alike⟩ := TokenStream.tokensFrom_spaced file
    (Source.lines ⟨mix ++ rest, file⟩) dropped lasting spaced steps _ enough
  have whole : TokenStream.ofSource g ⟨mix ++ rest, file⟩ =
      ⟨ts' ++ [TokenStream.endToken file stop'], .finished⟩ := skipped.trans stream'
  have ended : (TokenStream.endToken source.file stop).Alike
      (TokenStream.endToken file stop') := ⟨rfl, rfl, rfl, literalOf_same nofun⟩
  have all := List.rel_append alike (.cons ended .nil)
  rw [whole]
  refine ⟨rfl, Token.Alike.unplaced all, ?_⟩
  rw [Block.ofSource, Block.ofSource, stream, whole]
  exact Block.ofStream_alike g _ _ all

/-- The division is not taken for the beginning of the comment behind it. -/
theorem halved_laid_out : ∃ script script',
    Block.ofSource Grammar.second (.ofString "x=1/2") = .ok script ∧
      Block.ofSource Grammar.second (.ofString "x\t= 1#half\n//*a/**/*/2") = .ok script' ∧
      script.same script' = true := by
  have finished : (TokenStream.ofSource Grammar.second (.ofString "x=1/2")).ending = .finished := by
    decide +kernel
  have lexemes : (TokenStream.ofSource Grammar.second (.ofString "x=1/2")).tokens.dropLast.map
      (·.lexeme.toList) = [['x'], ['='], ['1'], ['/'], ['2']] := by decide +kernel
  have tab : Mix ['\t'] := .blank (by decide) .none
  have blank : Mix [' '] := .blank (by decide) .none
  have half : Mix ('#' :: (['h', 'a', 'l', 'f'] ++ ['\n'])) := .line (by decide) .none
  have nested : Mix ('/' :: '*' :: (['a', '/', '*', '*', '/', '*', '/'] ++ [])) :=
    .marked (.other (by rintro _ ⟨⟩; rfl) (.opening (.closing (.closing .none)))) .none
  have spaced : Spaced [['x'], ['='], ['1'], ['/'], ['2']] _ :=
    .cons tab nofun (.cons blank nofun (.cons half nofun (.cons nested nofun
      (.cons .none nofun .nil))))
  have spread : SpreadOver [['x'], ['='], ['1'], ['/'], ['2']]
      "x\t= 1#half\n//*a/**/*/2".toList := ⟨[], _, .none, spaced, by decide +kernel⟩
  rw [← lexemes] at spread
  have reads : (Block.ofSource Grammar.second (.ofString "x=1/2")).isOk = true := by decide +kernel
  obtain ⟨-, -, alike⟩ := layout_irrelevant Grammar.second rfl _ finished _ none spread
  generalize parsed : Block.ofSource Grammar.second (.ofString "x=1/2") = result at reads alike
  generalize parsed' : Block.ofSource Grammar.second _ = result' at alike
  cases alike with
  | ok same => exact ⟨_, _, rfl, parsed', same⟩
  | error _ => cases reads

end InstallScript
