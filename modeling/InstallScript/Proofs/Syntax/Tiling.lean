import InstallScript.Proofs.Syntax.Tokens

/-!
Where the tokens of a text lie. They lie one behind another, each over the characters that it is
written with, and between them is only what counts for nothing: white space, and whole comments
where comments are dropped (`tokens_tile_text`).

First the tokens are laid out from a place on (`tokensFrom_laid`), with the text split in what is
skipped, what is taken and what is left. What each token has to do with the whole text is then read
off the layout, with the text in front of it as what has been read.
-/

namespace InstallScript

/-! ## Places -/

/-- The characters of a text between two places. -/
def charsBetween (text : List Char) (first last : Location) : List Char :=
  (text.drop first.offset).take (last.offset - first.offset)

/-- A place in a text whose line and column are those of its offset: lines count line feeds, and
columns the characters since the last one. -/
structure Location.Counts (text : List Char) (l : Location) : Prop where
  inside : l.offset ≤ text.length
  line : l.line = 1 + (text.take l.offset).count '\n'
  column : l.column = 1 + ((text.take l.offset).reverse.takeWhile (· ≠ '\n')).length

/-- The line and the column behind a stretch at the start of a text. -/
theorem Location.after_start (cs : List Char) :
    (({} : Location).after cs).line = 1 + cs.count '\n' ∧
      (({} : Location).after cs).column = 1 + (cs.reverse.takeWhile (· ≠ '\n')).length := by
  induction cs using List.reverseRecOn with
  | nil => exact ⟨rfl, rfl⟩
  | append_singleton cs c ih =>
    obtain ⟨line, column⟩ := ih
    rw [Location.after_append, Location.after_cons, Location.after_nil, Location.next]
    by_cases isBreak : c = '\n'
    · subst isBreak
      simp [line, Nat.add_assoc]
    · simp [isBreak, line, column]
      omega

/-- A place that has been reached over the text in front of it counts. -/
theorem Location.counts_after (before rest : List Char) :
    (({} : Location).after before).Counts (before ++ rest) := by
  have offset : (({} : Location).after before).offset = before.length := by simp
  obtain ⟨line, column⟩ := Location.after_start before
  constructor
  · simp
  · rw [offset, List.take_left, line]
  · rw [offset, List.take_left, column]

/-! ## What is skipped -/

/-- A whole comment, in front of the rest of a text: up to the end of its line, or between marks and
with every comment closed that is opened in it. -/
inductive WholeComment : List Char → List Char → Prop
  | line {body rest : List Char} (oneLine : '\n' ∉ body)
      (ends : ∀ c, rest.head? = some c → c = '\n') : WholeComment ('#' :: body) rest
  | marked {body rest : List Char} (closed : commentDepth? 1 body = some 1) :
    WholeComment ('/' :: '*' :: (body ++ ['*', '/'])) rest

/-- A whole comment without its marks. -/
def commentBody : List Char → List Char
  | '#' :: body => body
  | '/' :: '*' :: more => more.take (more.length - 2)
  | cs => cs

/-- A comment in front of the rest of a text: it is a whole one and stands for what is between its
marks, without the blanks around it. -/
structure CommentFound (comment rest : List Char) (value : TokenValue) : Prop where
  whole : WholeComment comment rest
  stripped : value = .text (String.ofList (Text.strip (commentBody comment)))

/-- What may lie in front of a token or of the end, given the rest of the text: white space, and
whole comments if these are dropped. -/
inductive Gap (g : Grammar) : List Char → List Char → Prop
  | none {rest : List Char} : Gap g [] rest
  | blank {c : Char} {cs rest : List Char} (isBlank : isGap c = true) (more : Gap g cs rest) :
    Gap g (c :: cs) rest
  | comment {comment cs rest : List Char} (dropped : g.retainComments = false)
      (whole : WholeComment comment (cs ++ rest)) (more : Gap g cs rest) :
    Gap g (comment ++ cs) rest

theorem Gap.append {g : Grammar} {cs ds rest : List Char} (first : Gap g cs (ds ++ rest))
    (second : Gap g ds rest) : Gap g (cs ++ ds) rest := by
  generalize split : ds ++ rest = more at first
  induction first with
  | none => exact second
  | blank isBlank _ ih => exact .blank isBlank (ih split)
  | comment dropped whole _ ih =>
    subst split
    rw [List.append_assoc]
    refine .comment dropped ?_ (ih rfl)
    rwa [List.append_assoc]

theorem Gap.blanks {g : Grammar} {cs rest : List Char} (blank : ∀ c ∈ cs, isGap c = true) :
    Gap g cs rest := by
  induction cs with
  | nil => exact .none
  | cons c cs ih =>
    exact .blank (blank c List.mem_cons_self)
      (ih fun d member => blank d (List.mem_cons_of_mem _ member))

/-! ## What is found at the head of a text -/

/-- The keywords are words: none of them is a comment or the end of the input. -/
def Grammar.WordsOnly (g : Grammar) : Prop :=
  ∀ entry ∈ g.keywords, entry.2 ≠ .comment ∧ entry.2 ≠ .endOfInput

theorem Grammar.Standard.wordsOnly {g : Grammar} (standard : g.Standard) : g.WordsOnly := by
  unfold Grammar.WordsOnly
  rcases standard with words | words <;> rw [words] <;> decide

/-- A token found at the head of a text: it takes a character at least, does not end the input, and
is a comment only if one stands there. -/
structure Found (cs : List Char) (kind : TokenKind) (value : TokenValue) (length : Nat) : Prop where
  takes : 0 < length
  notEnd : kind ≠ .endOfInput
  comment : kind = .comment → CommentFound (cs.take length) (cs.drop length) value

theorem Found.of_not_comment {cs : List Char} {kind : TokenKind} {value : TokenValue} {length : Nat}
    (takes : 0 < length) (notEnd : kind ≠ .endOfInput) (other : kind ≠ .comment) :
    Found cs kind value length :=
  ⟨takes, notEnd, fun isComment => absurd isComment other⟩

section

variable {g : Grammar} {kind : TokenKind} {value : TokenValue} {length : Nat}

theorem found_of_scanLineComment {rest : List Char}
    (found : scanLineComment rest = .token kind value length) :
    Found ('#' :: rest) kind value length := by
  unfold scanLineComment at found
  cases found
  refine ⟨Nat.succ_pos _, nofun, fun _ => ?_⟩
  have split := List.takeWhile_append_dropWhile (p := fun c => decide (c ≠ '\n')) (l := rest)
  have oneLine : '\n' ∉ rest.takeWhile (fun c => decide (c ≠ '\n')) := by
    intro member
    simpa using List.all_eq_true.1 List.all_takeWhile _ member
  have ends := head_dropWhile (p := fun c => decide (c ≠ '\n')) rest
  generalize rest.takeWhile (fun c => decide (c ≠ '\n')) = body at split oneLine ⊢
  rw [← split, List.take_succ_cons, List.take_left, List.drop_succ_cons, List.drop_left]
  exact ⟨.line oneLine fun c head => by simpa using ends c head, rfl⟩

theorem found_of_scanBlockComment {rest : List Char}
    (found : scanBlockComment rest = .token kind value length) :
    Found ('/' :: '*' :: rest) kind value length := by
  unfold scanBlockComment at found
  split at found
  · rename_i inner ends
    cases found
    obtain ⟨body, more, rfl, rfl, closed⟩ := commentLength?_split ends
    refine ⟨Nat.succ_pos _, nofun, fun _ => ?_⟩
    have split : body ++ '*' :: '/' :: more = (body ++ ['*', '/']) ++ more := by simp
    have size : body.length + 2 = (body ++ ['*', '/']).length := by simp
    have inside : (body ++ '*' :: '/' :: more).take (body.length + 2 - 2) =
        commentBody ('/' :: '*' :: (body ++ ['*', '/'])) := by
      simp [commentBody]
    rw [inside, split, List.take_succ_cons, List.take_succ_cons, List.drop_succ_cons,
      List.drop_succ_cons, size, List.take_left, List.drop_left]
    exact ⟨.marked closed, rfl⟩
  · cases found

theorem found_of_scanQuoted {quote : Char} {cs rest : List Char}
    (found : scanQuoted quote rest = .token kind value length) : Found cs kind value length := by
  unfold scanQuoted at found
  split at found
  · cases found
    exact .of_not_comment (Nat.succ_pos _) nofun nofun
  · cases found
  · cases found

/-- A number literal that is neither refused for its form nor too large. -/
theorem Found.of_number {P Q : Prop} [Decidable P] [Decidable Q]
    {whole fraction mark exponent cs : List Char} {f f' : Fault} {i j i' j' size : Nat}
    (takes : 0 < size)
    (found : (if P then Scan.fault f i j else if Q then .fault f' i' j' else
      match literalNumber whole fraction mark exponent with
      | .float (.infinite _) => .fault f i j
      | number => .token .numberLiteral (.number number) size) = .token kind value length) :
    Found cs kind value length := by
  split at found
  · cases found
  split at found
  · cases found
  split at found
  · cases found
  · cases found
    exact .of_not_comment takes nofun nofun

theorem found_of_scanNumber {c : Char} {rest : List Char} (digit : c.isDigit = true)
    (found : scanNumber (c :: rest) = .token kind value length) :
    Found (c :: rest) kind value length := by
  unfold scanNumber at found
  refine .of_number ?_ found
  simp [List.takeWhile_cons_of_pos digit]

theorem scanWord_takes {c : Char} {rest : List Char} (start : isNameStart c = true)
    (found : scanWord g (c :: rest) = .token kind value length) : 0 < length := by
  have takes : 0 < ((c :: rest).takeWhile isNamePart).length := by
    simp [List.takeWhile_cons_of_pos (isNamePart_of_isNameStart start)]
  unfold scanWord at found
  dsimp only at found
  split at found <;> cases found <;> exact takes

/-- A word stands for a name, for a truth value or for its keyword. -/
theorem found_of_scanWord (words : g.WordsOnly) {c : Char} {rest : List Char}
    (start : isNameStart c = true) (found : scanWord g (c :: rest) = .token kind value length) :
    Found (c :: rest) kind value length := by
  have takes : 0 < length := scanWord_takes start found
  unfold scanWord at found
  dsimp only at found
  split at found
  · cases found
    exact .of_not_comment takes nofun nofun
  · cases found
    exact .of_not_comment takes nofun nofun
  · rename_i keyword
    cases found
    obtain ⟨entry, member, rfl⟩ := exists_of_lookup keyword
    obtain ⟨notComment, notEnd⟩ := words entry member
    exact .of_not_comment takes notEnd notComment

theorem singleSymbol?_found {c : Char} {cs : List Char} (found : singleSymbol? c = some kind) :
    Found cs kind value 1 := by
  have symbols : ∀ k, singleSymbol? c = some k → k ≠ .endOfInput ∧ k ≠ .comment := by
    intro k isSymbol
    obtain ⟨entry, member, rfl⟩ := exists_of_lookup isSymbol
    clear isSymbol found
    revert entry
    decide
  exact .of_not_comment Nat.one_pos (symbols kind found).1 (symbols kind found).2

theorem doubleSymbol?_found {c d : Char} {cs : List Char}
    (found : doubleSymbol? c d = some kind) : Found cs kind value 2 := by
  have symbols : ∀ k, doubleSymbol? c d = some k → k ≠ .endOfInput ∧ k ≠ .comment := by
    intro k isSymbol
    obtain ⟨entry, member, rfl⟩ := exists_of_lookup isSymbol
    clear isSymbol found
    revert entry
    decide
  exact .of_not_comment Nat.two_pos (symbols kind found).1 (symbols kind found).2

theorem found_of_scanSymbol {c : Char} {rest cs : List Char}
    (found : scanSymbol c rest = .token kind value length) : Found cs kind value length := by
  have single (found : scanSingle c = .token kind value length) : Found cs kind value length := by
    unfold scanSingle at found
    split at found
    · rename_i isSymbol
      cases found
      exact singleSymbol?_found isSymbol
    · cases found
  unfold scanSymbol at found
  split at found
  · exact single found
  · split at found
    · rename_i isSymbol
      cases found
      exact doubleSymbol?_found isSymbol
    · exact single found

theorem found_of_scan (words : g.WordsOnly) {c : Char} {rest : List Char}
    (found : scan g c rest = .token kind value length) : Found (c :: rest) kind value length := by
  unfold scan at found
  split at found
  · rename_i isHash
    subst isHash
    exact found_of_scanLineComment found
  split at found
  · rename_i opens
    obtain ⟨rfl, star⟩ := opens
    obtain ⟨more, rfl⟩ := List.head?_eq_some_iff.1 star
    exact found_of_scanBlockComment found
  split at found
  · exact found_of_scanQuoted found
  split at found
  · exact found_of_scanNumber ‹_› found
  split at found
  · exact found_of_scanWord words ‹_› found
  · exact found_of_scanSymbol found

end

/-! ## The layout of a stream -/

namespace TokenStream

section

variable {g : Grammar} {file : Option String}

/-- A stream laid out over a text from a place on: in front of each token, of the end and of what is
wrong with the text is a gap. -/
inductive Laid (g : Grammar) (file : Option String) :
    Location → List Char → TokenStream → Prop
  | ended {place : Location} {gap : List Char} (skipped : Gap g gap []) :
    Laid g file place gap ⟨[endToken file (place.after gap)], .finished⟩
  | failed {place : Location} {gap rest : List Char} {lead length : Nat} {error : ScriptError}
      (skipped : Gap g gap rest)
      (span : error.span = some ⟨(place.after gap).after (rest.take lead),
        (place.after gap).after (rest.take length), file⟩) :
    Laid g file place (gap ++ rest)
      ⟨[], .failed error ((place.after gap).after (rest.take length))⟩
  | token {place : Location} {gap lexeme rest : List Char} {kind : TokenKind} {value : TokenValue}
      {others : TokenStream} (skipped : Gap g gap (lexeme ++ rest)) (takes : lexeme ≠ [])
      (notEnd : kind ≠ .endOfInput) (comment : kind = .comment → CommentFound lexeme rest value)
      (more : Laid g file ((place.after gap).after lexeme) rest others) :
    Laid g file place (gap ++ (lexeme ++ rest))
      (cons ⟨kind, value, String.ofList lexeme,
        ⟨place.after gap, (place.after gap).after lexeme, file⟩⟩ others)

/-- What may lie in front of a layout belongs to its first gap. -/
theorem Laid.behind {place : Location} {skipped cs : List Char} {s : TokenStream}
    (laid : Laid g file (place.after skipped) cs s)
    (gap : Gap g skipped cs) : Laid g file place (skipped ++ cs) s := by
  cases laid with
  | ended more =>
    rw [← Location.after_append]
    refine .ended (Gap.append ?_ more)
    rwa [List.append_nil]
  | @failed _ first rest lead length error more span =>
    rw [← Location.after_append place skipped first] at span ⊢
    rw [← List.append_assoc]
    exact .failed (gap.append more) span
  | @token _ first lexeme rest kind value s more takes notEnd comment others =>
    rw [← Location.after_append place skipped first] at others ⊢
    rw [← List.append_assoc]
    exact .token (gap.append more) takes notEnd comment others

/-- The tokens of a text are laid out over it. Each step uses up a character at least. -/
theorem tokensFrom_laid (words : g.WordsOnly) (lines : List String) :
    ∀ (steps : Nat) (place : Location) (cs : List Char), cs.length < steps →
      Laid g file place cs (tokensFrom g file lines steps place cs)
  | 0, _, _, bound => absurd bound (Nat.not_lt_zero _)
  | steps + 1, place, cs, bound => by
    have split := List.takeWhile_append_dropWhile (p := isGap) (l := cs)
    have blank : ∀ c ∈ cs.takeWhile isGap, isGap c = true :=
      List.all_eq_true.1 List.all_takeWhile
    rw [tokensFrom]
    dsimp only
    generalize cs.takeWhile isGap = gap at split blank ⊢
    generalize cs.dropWhile isGap = rest at split ⊢
    subst split
    split
    · rw [List.append_nil]
      exact .ended (.blanks blank)
    · rename_i c rest
      split
      · exact .failed (.blanks blank) rfl
      · rename_i kind value length found
        obtain ⟨takes, notEnd, isComment⟩ := found_of_scan words found
        have whole := List.take_append_drop length (c :: rest)
        have nonempty : (c :: rest).take length ≠ [] := by
          intro none
          rcases List.take_eq_nil_iff.1 none with zero | empty
          · omega
          · cases empty
        have less : ((c :: rest).drop length).length < steps := by
          simp only [List.length_append, List.length_cons, List.length_drop] at bound ⊢
          omega
        generalize (c :: rest).take length = lexeme at whole nonempty isComment ⊢
        generalize (c :: rest).drop length = rest' at whole less isComment ⊢
        rw [← whole]
        have others := tokensFrom_laid words lines steps ((place.after gap).after lexeme) rest' less
        split
        · rename_i skipped
          obtain ⟨comment, dropped⟩ := skipped
          have gap' : Gap g lexeme rest' := by
            have alone : Gap g (lexeme ++ []) rest' :=
              .comment dropped (isComment comment).whole .none
            rwa [List.append_nil] at alone
          exact (others.behind gap').behind (.blanks blank)
        · exact .token (.blanks blank) nonempty notEnd isComment others

/-! ## The tokens of a text -/

/-- The end of the last one of some tokens, or the place that they come after. -/
def stopOf (start : Location) (tokens : List Token) : Location :=
  (tokens.getLast?.map (·.span.stop)).getD start

/-- A stream tiles a text from a place on. -/
structure Tiles (g : Grammar) (text : List Char) (start : Location) (s : TokenStream) : Prop where
  /-- The tokens come one behind another. -/
  ordered : s.tokens.Pairwise fun t u =>
    t.span.start.offset < u.span.start.offset ∧ t.span.stop.offset ≤ u.span.start.offset
  behind : ∀ t ∈ s.tokens, start.offset ≤ t.span.start.offset
  /-- A token is written with the characters of its stretch; only the end has none. -/
  written : ∀ t ∈ s.tokens, t.lexeme.toList = charsBetween text t.span.start t.span.stop ∧
    (t.kind ≠ .endOfInput → t.lexeme ≠ "")
  places : ∀ t ∈ s.tokens, t.span.start.Counts text ∧ t.span.stop.Counts text
  /-- Comments that are kept are whole, too. -/
  comments : ∀ t ∈ s.tokens, t.kind = .comment →
    CommentFound t.lexeme.toList (text.drop t.span.stop.offset) t.value
  /-- Nothing but a gap lies between a token and the one before it. -/
  gaps : ∀ before t after, s.tokens = before ++ t :: after →
    Gap g (charsBetween text (stopOf start before) t.span.start) (text.drop t.span.start.offset)
  /-- A text that is used up ends with the only token that says so. -/
  finished : s.ending = .finished → ∃ body last, s.tokens = body ++ [last] ∧
    (∀ t ∈ body, t.kind ≠ .endOfInput) ∧ last.kind = .endOfInput ∧ last.lexeme = "" ∧
      last.span.start.offset = text.length ∧ last.span.stop.offset = text.length
  /-- Otherwise no token says so, and the places of the error count. -/
  failed : ∀ error stop, s.ending = .failed error stop →
    (∀ t ∈ s.tokens, t.kind ≠ .endOfInput) ∧
      ∃ span, error.span = some span ∧ span.start.Counts text ∧ span.stop.Counts text ∧
        stop = span.stop

/-- The places around a stretch of a text delimit it. -/
theorem charsBetween_after (before middle rest : List Char) :
    charsBetween (before ++ (middle ++ rest)) (({} : Location).after before)
      (({} : Location).after (before ++ middle)) = middle := by
  simp [charsBetween]

theorem drop_after (before rest : List Char) :
    (before ++ rest).drop (({} : Location).after before).offset = rest := by
  simp

theorem stopOf_cons (start : Location) (t : Token) (tokens : List Token) :
    stopOf start (t :: tokens) = stopOf t.span.stop tokens := by
  cases tokens with
  | nil => rfl
  | cons u tokens => simp [stopOf, List.getLast?_cons]

/-- One more token in front of those that tile the rest of a text. -/
theorem Tiles.cons {text before gap lexeme rest : List Char} {kind : TokenKind}
    {value : TokenValue} {s : TokenStream} (split : text = before ++ (gap ++ (lexeme ++ rest)))
    (skipped : Gap g gap (lexeme ++ rest)) (takes : lexeme ≠ []) (notEnd : kind ≠ .endOfInput)
    (comment : kind = .comment → CommentFound lexeme rest value)
    (others : Tiles g text (({} : Location).after (before ++ (gap ++ lexeme))) s) :
    Tiles g text (({} : Location).after before)
      (TokenStream.cons ⟨kind, value, String.ofList lexeme, ⟨({} : Location).after (before ++ gap),
        ({} : Location).after (before ++ (gap ++ lexeme)), file⟩⟩ s) := by
  have size : 0 < lexeme.length := List.length_pos_iff.2 takes
  have atStart : text = (before ++ gap) ++ (lexeme ++ rest) := by
    rw [split, List.append_assoc]
  have atStop : text = (before ++ (gap ++ lexeme)) ++ rest := by
    simp only [split, List.append_assoc]
  have behind (u : Token) (member : u ∈ s.tokens) :
      before.length + gap.length + lexeme.length ≤ u.span.start.offset := by
    have := others.behind u member
    simp only [Location.offset_after, List.length_append] at this
    omega
  refine ⟨List.pairwise_cons.2 ⟨fun u member => ?_, others.ordered⟩,
    List.forall_mem_cons.2 ⟨?_, fun u member => ?_⟩,
    List.forall_mem_cons.2 ⟨⟨?_, fun _ empty => ?_⟩, others.written⟩,
    List.forall_mem_cons.2 ⟨⟨?_, ?_⟩, others.places⟩,
    List.forall_mem_cons.2 ⟨fun isComment => ?_, others.comments⟩, ?_, fun ending => ?_,
    fun error stop ending => ?_⟩
  · have later := behind u member
    simp only [Location.offset_after, List.length_append]
    omega
  · simp
  · have later := behind u member
    simp only [Location.offset_after]
    omega
  · rw [String.toList_ofList, atStart, ← List.append_assoc before gap lexeme, charsBetween_after]
  · have none := congrArg String.toList empty
    rw [String.toList_ofList] at none
    exact takes none
  · rw [atStart]
    exact Location.counts_after _ _
  · rw [atStop]
    exact Location.counts_after _ _
  · rw [String.toList_ofList, atStop, drop_after]
    exact comment isComment
  · intro front t after eq
    cases front with
    | nil =>
      cases eq
      show Gap g (charsBetween text (({} : Location).after before)
        (({} : Location).after (before ++ gap))) (text.drop _)
      have left : charsBetween text (({} : Location).after before)
          (({} : Location).after (before ++ gap)) = gap := by
        rw [split, charsBetween_after]
      rw [left, atStart, drop_after]
      exact skipped
    | cons u front =>
      obtain ⟨same, eq⟩ := List.cons.inj eq
      rw [stopOf_cons, ← same]
      exact others.gaps front t after eq
  · obtain ⟨body, last, eq, notEnds, isEnd⟩ := others.finished ending
    refine ⟨_ :: body, last, congrArg (_ :: ·) eq, ?_, isEnd⟩
    exact List.forall_mem_cons.2 ⟨notEnd, notEnds⟩
  · obtain ⟨notEnds, spanned⟩ := others.failed error stop ending
    exact ⟨List.forall_mem_cons.2 ⟨notEnd, notEnds⟩, spanned⟩

/-- The end of a text, behind a gap. -/
theorem Tiles.last {before gap : List Char} (skipped : Gap g gap []) :
    Tiles g (before ++ gap) (({} : Location).after before)
      ⟨[endToken file (({} : Location).after (before ++ gap))], .finished⟩ := by
  have counts : (({} : Location).after (before ++ gap)).Counts (before ++ gap) := by
    have all := Location.counts_after (before ++ gap) []
    rwa [List.append_nil] at all
  have stop : (({} : Location).after (before ++ gap)).offset = (before ++ gap).length := by
    simp
  refine ⟨List.pairwise_singleton _ _, List.forall_mem_singleton.2 ?_,
    List.forall_mem_singleton.2 ⟨?_, fun notEnd => absurd rfl notEnd⟩,
    List.forall_mem_singleton.2 ⟨counts, counts⟩, List.forall_mem_singleton.2 fun isComment => ?_,
    ?_, fun _ => ⟨[], _, rfl, List.forall_mem_nil _, rfl, rfl, stop, stop⟩,
    fun _ _ ending => ?_⟩
  · simp [endToken]
  · simp [endToken, charsBetween]
  · cases isComment
  · intro front t after eq
    cases front with
    | nil =>
      cases eq
      show Gap g (charsBetween (before ++ gap) (({} : Location).after before)
        (({} : Location).after (before ++ gap))) ((before ++ gap).drop
          (({} : Location).after (before ++ gap)).offset)
      have left := charsBetween_after before gap []
      rw [List.append_nil] at left
      rw [left, stop, List.drop_length]
      exact skipped
    | cons u front => simp at eq
  · cases ending

/-- A layout behind a stretch of a text tiles the whole text from there on. -/
theorem Laid.tiles {before cs : List Char} {s : TokenStream}
    (laid : Laid g file (({} : Location).after before) cs s) :
    Tiles g (before ++ cs) (({} : Location).after before) s := by
  generalize reached : ({} : Location).after before = place at laid
  induction laid generalizing before with
  | @ended place gap skipped =>
    subst reached
    rw [← Location.after_append]
    exact .last skipped
  | @failed place gap rest lead length error skipped span =>
    subst reached
    have counts (n : Nat) : ((({} : Location).after before).after gap |>.after (rest.take n)).Counts
        (before ++ (gap ++ rest)) := by
      have all := Location.counts_after (before ++ (gap ++ rest.take n)) (rest.drop n)
      rwa [Location.after_append, Location.after_append, List.append_assoc, List.append_assoc,
        List.take_append_drop] at all
    refine ⟨.nil, List.forall_mem_nil _, List.forall_mem_nil _, List.forall_mem_nil _,
      List.forall_mem_nil _, ?_, ?_, ?_⟩
    · intro front t after eq
      simp at eq
    · intro ending
      cases ending
    intro error' stop ending
    cases ending
    refine ⟨List.forall_mem_nil _, _, span, ?_, ?_, rfl⟩
    · exact counts lead
    · exact counts length
  | @token place gap lexeme rest kind value s skipped takes notEnd comment more ih =>
    subst reached
    have others := @ih (before ++ (gap ++ lexeme)) (by simp only [Location.after_append])
    rw [← Location.after_append, ← Location.after_append, List.append_assoc] at others ⊢
    rw [List.append_assoc] at others
    exact Tiles.cons rfl skipped takes notEnd comment others

theorem Laid.tiles_text {text : List Char} {s : TokenStream} (laid : Laid g file {} text s) :
    Tiles g text {} s := by
  have tiles : Tiles g ([] ++ text) (({} : Location).after []) s := Laid.tiles laid
  rwa [List.nil_append, Location.after_nil] at tiles

/-- The tokens of a text are laid out over it from its start on. -/
theorem ofSource_laid (words : g.WordsOnly) (source : Source) :
    Laid g source.file {} source.text (ofSource g source) :=
  tokensFrom_laid words source.lines _ {} source.text (Nat.lt_succ_self _)

end

end TokenStream

/-- The tokens of a text tile it from its start on. So do those in front of an error. -/
theorem tokens_tile_text (g : Grammar) (words : g.WordsOnly) (source : Source) :
    (TokenStream.ofSource g source).Tiles g source.text {} :=
  (TokenStream.ofSource_laid words source).tiles_text

/-- A text with both forms of comments that breaks off in a string. -/
def unclosedText : List Char := "x /* a /* b */ */ = # note\n  \"open".toList

/-- The string that is not closed is the error, and both tokens in front of it tile the text. -/
theorem unclosedText_tiled : Grammar.second.WordsOnly ∧
    (TokenStream.ofSource Grammar.second ⟨unclosedText, none⟩).tokens.map Token.lexeme =
      ["x", "="] ∧
    (TokenStream.ofSource Grammar.second ⟨unclosedText, none⟩).Tiles Grammar.second
      unclosedText {} := by
  have words : Grammar.second.WordsOnly := Grammar.Standard.wordsOnly (.inr rfl)
  exact ⟨words, by decide +kernel, tokens_tile_text Grammar.second words ⟨unclosedText, none⟩⟩

end InstallScript
