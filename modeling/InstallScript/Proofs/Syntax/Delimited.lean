import InstallScript.Proofs.Syntax.KeptComments
import InstallScript.Proofs.Syntax.Stretches

/-!
The nodes of a tree that is read from a text delimit their parts (`Block.delimits`): the tokens of
the text lie one behind another, and two words never touch.
-/

namespace InstallScript

/-! ## Gaps between words -/

section

variable {g : Grammar} {kind : TokenKind} {value : TokenValue} {length : Nat}

theorem kind_of_number {P Q : Prop} [Decidable P] [Decidable Q]
    {whole fraction mark exponent : List Char} {f f' : Fault} {i j i' j' size : Nat}
    (found : (if P then Scan.fault f i j else if Q then .fault f' i' j' else
      match literalNumber whole fraction mark exponent with
      | .float (.infinite _) => .fault f i j
      | number => .token .numberLiteral (.number number) size) = .token kind value length) :
    kind = .numberLiteral := by
  split at found
  · cases found
  split at found
  · cases found
  split at found <;> cases found
  rfl

theorem scanNumber_kind {cs : List Char} (found : scanNumber cs = .token kind value length) :
    kind = .numberLiteral := by
  unfold scanNumber at found
  exact kind_of_number found

theorem singleSymbol?_notWord {c : Char} (found : singleSymbol? c = some kind) :
    kind ∉ bodyWords := by
  obtain ⟨entry, member, rfl⟩ := exists_of_lookup found
  clear found
  revert entry
  decide

theorem doubleSymbol?_notWord {c d : Char} (found : doubleSymbol? c d = some kind) :
    kind ∉ bodyWords := by
  obtain ⟨entry, member, rfl⟩ := exists_of_lookup found
  clear found
  revert entry
  decide

theorem scanSymbol_notWord {c : Char} {rest : List Char}
    (found : scanSymbol c rest = .token kind value length) : kind ∉ bodyWords := by
  have single (found : scanSingle c = .token kind value length) : kind ∉ bodyWords := by
    unfold scanSingle at found
    split at found
    · rename_i isSymbol
      cases found
      exact singleSymbol?_notWord isSymbol
    · cases found
  unfold scanSymbol at found
  split at found
  · exact single found
  · split at found
    · rename_i isSymbol
      cases found
      exact doubleSymbol?_notWord isSymbol
    · exact single found

/-- A word is scanned as far as it goes. -/
theorem scan_bodyWord {c : Char} {rest : List Char} (word : kind ∈ bodyWords)
    (found : scan g c rest = .token kind value length) : isNamePart c = true ∧
      ∀ d, ((c :: rest).drop length).head? = some d → isNamePart d = false := by
  unfold scan at found
  split at found
  · rw [(scanLineComment_value found).1] at word
    exact absurd word (by decide)
  split at found
  · rw [(scanBlockComment_value found).1] at word
    exact absurd word (by decide)
  split at found
  · unfold scanQuoted at found
    split at found <;> cases found
    exact absurd word (by decide)
  split at found
  · rw [scanNumber_kind found] at word
    exact absurd word (by decide)
  split at found
  · rename_i start
    have whole : length = ((c :: rest).takeWhile isNamePart).length := by
      unfold scanWord at found
      dsimp only at found
      split at found <;> cases found <;> rfl
    refine ⟨isNamePart_of_isNameStart start, ?_⟩
    have left : (c :: rest).drop length = (c :: rest).dropWhile isNamePart := by
      conv_lhs => rw [← List.takeWhile_append_dropWhile (p := isNamePart) (l := c :: rest), whole]
      exact List.drop_left
    rw [left]
    exact head_dropWhile _
  · exact absurd word (scanSymbol_notWord found)

theorem end_notWord : TokenKind.endOfInput ∉ bodyWords := by decide

/-- Between two words of a text is a gap. A token begins behind the place from which the text is
read; a word begins there only if the text goes on as a word does. -/
theorem TokenStream.tokensFrom_apart {file : Option String} {lines : List String}
    (words : g.WordsOnly) : ∀ (steps : Nat) (place : Location) (cs : List Char),
      (tokensFrom g file lines steps place cs).tokens.IsChain Token.Precedes ∧
      ∀ t ∈ (tokensFrom g file lines steps place cs).tokens.head?,
        place.offset ≤ t.span.start.offset ∧ (t.kind ∈ bodyWords →
          place.offset < t.span.start.offset ∨ ∃ c, cs.head? = some c ∧ isNamePart c = true)
  | 0, place, cs => by
    refine ⟨.singleton _, fun t head => ?_⟩
    obtain rfl := Option.some.inj head
    exact ⟨Nat.le_refl _, fun word => absurd word end_notWord⟩
  | steps + 1, place, cs => by
    have split := List.takeWhile_append_dropWhile (p := isGap) (l := cs)
    rw [tokensFrom]
    dsimp only
    generalize cs.takeWhile isGap = gap at split ⊢
    generalize cs.dropWhile isGap = rest at split ⊢
    subst split
    split
    · refine ⟨.singleton _, fun t head => ?_⟩
      obtain rfl := Option.some.inj head
      exact ⟨by simp [endToken], fun word => absurd word end_notWord⟩
    · rename_i c rest
      split
      · exact ⟨.nil, by simp⟩
      · rename_i kind value length found
        have takes := (found_of_scan words found).takes
        have size : 0 < ((c :: rest).take length).length := by
          rw [List.length_take, List.length_cons]
          omega
        obtain ⟨chain, first⟩ := tokensFrom_apart words steps
          ((place.after gap).after ((c :: rest).take length)) ((c :: rest).drop length)
        simp only [Location.offset_after] at first
        split
        · refine ⟨chain, fun t head => ?_⟩
          have far := (first t head).1
          exact ⟨by omega, fun _ => .inl (by omega)⟩
        · refine ⟨List.isChain_cons.2 ⟨fun next head word nextWord => ?_, chain⟩, fun t head => ?_⟩
          · -- the word at hand took all that goes on as a word
            obtain ⟨-, ended⟩ := scan_bodyWord word found
            rw [Location.offset_after, Location.offset_after]
            rcases (first next head).2 nextWord with far | ⟨d, goesOn, part⟩
            · exact far
            · rw [ended d goesOn] at part
              cases part
          · obtain rfl := Option.some.inj head
            refine ⟨by simp, fun word => ?_⟩
            cases gap with
            | nil => exact .inr ⟨c, rfl, (scan_bodyWord word found).1⟩
            | cons d gap =>
              refine .inl ?_
              rw [Location.offset_after, List.length_cons]
              omega

/-- There are no comments among the tokens if they are dropped. -/
theorem TokenStream.tokensFrom_dropped {file : Option String} {lines : List String}
    (dropped : g.retainComments = false) : ∀ (steps : Nat) (place : Location) (cs : List Char),
      ∀ t ∈ (tokensFrom g file lines steps place cs).tokens, t.kind ≠ .comment
  | 0, _, _, t, member => by
    obtain rfl := List.mem_singleton.1 member
    nofun
  | steps + 1, place, cs, t, member => by
    unfold tokensFrom at member
    dsimp only at member
    split at member
    · obtain rfl := List.mem_singleton.1 member
      nofun
    split at member
    · cases member
    · split at member
      · exact tokensFrom_dropped dropped steps _ _ t member
      · rename_i kept
        rcases List.mem_cons.1 member with rfl | later
        · exact fun isComment => kept ⟨isComment, dropped⟩
        · exact tokensFrom_dropped dropped steps _ _ t later

end

/-- The end of a text is behind it. -/
theorem TokenStream.Tiles.of_end {g : Grammar} {text : List Char} {stream : TokenStream}
    (tiles : stream.Tiles g text {}) {t : Token} (member : t ∈ stream.tokens)
    (isEnd : t.kind = .endOfInput) :
    t.span.start.offset = text.length ∧ t.span.stop.offset = text.length := by
  obtain ⟨body, last, split, notEnds, -, -, places⟩ :=
    tiles.finished (tiles.finished_of_end member isEnd)
  rw [split] at member
  rcases List.mem_append.1 member with inBody | isLast
  · exact absurd isEnd (notEnds t inBody)
  · rwa [List.mem_singleton.1 isLast]

/-! ## Scripts -/

/-- Tokens one behind another as items. -/
theorem between_map_plain {lo hi : Nat} {tokens : List Token} (bounds : lo ≤ hi)
    (chain : tokens.IsChain Token.Precedes)
    (ordered : tokens.Pairwise fun t u => t.span.stop.offset ≤ u.span.start.offset)
    (room : ∀ t ∈ tokens, lo ≤ t.span.start.offset ∧ t.span.start.offset < t.span.stop.offset ∧
      t.span.stop.offset ≤ hi) : Between hi lo (tokens.map Item.plain) := by
  induction tokens generalizing lo with
  | nil => exact bounds
  | cons t tokens ih =>
    obtain ⟨apart, chain⟩ := List.isChain_cons.1 chain
    obtain ⟨behind, ordered⟩ := List.pairwise_cons.1 ordered
    obtain ⟨⟨left, own, right⟩, others⟩ := List.forall_mem_cons.1 room
    refine ⟨rfl, left, own, ?_, ih right chain ordered fun u member => ?_⟩
    · intro next head
      rw [List.head?_map] at head
      obtain ⟨u, first, rfl⟩ := Option.mem_map.1 head
      exact apart u first
    · exact ⟨behind u member, (others u member).2⟩

namespace Block

variable {g : Grammar} {source : Source} {script : Block}

/-- The items of a text without comments, from which a script is read. -/
theorem body_of_source (words : g.WordsOnly) (dropped : g.retainComments = false)
    (parsed : Block.ofSource g source = .ok script) :
    ∃ body last ss, (TokenStream.ofSource g source).tokens = body ++ [last] ∧
      (∀ t ∈ body, t.kind ≠ .endOfInput) ∧ Between source.text.length 0 (body.map Item.plain) ∧
      last.span.start.offset = source.text.length ∧ last.span.stop.offset = source.text.length ∧
      script = .mk (blockSpan none (body.map Item.plain) (.plain last)) ss ∧
      Phrase.Statements g (body.map Item.plain) (.plain last) ss := by
  have tiles := (TokenStream.ofSource_laid words source).tiles_text
  have noComments : ∀ t ∈ (TokenStream.ofSource g source).tokens, t.kind ≠ .comment :=
    TokenStream.tokensFrom_dropped dropped _ _ _
  have chain : (TokenStream.ofSource g source).tokens.IsChain Token.Precedes :=
    (TokenStream.tokensFrom_apart words _ _ _).1
  obtain ⟨-, phrase⟩ := Block.script_of_source words parsed
  rw [groupComments_eq_map noComments] at phrase
  generalize TokenStream.ofSource g source = stream at tiles noComments chain phrase ⊢
  generalize whole : stream.tokens.map Item.plain = items at phrase
  obtain ⟨⟨inner⟩, closingKind⟩ := phrase
  obtain ⟨body, behind, split, rfl, lastOnly⟩ := List.map_eq_append_iff.1 whole
  obtain ⟨last, rfl, rfl⟩ := List.map_eq_singleton_iff.1 lastOnly
  have lastKind : last.kind = .endOfInput := closingKind
  have isLast : last ∈ stream.tokens := by simp [split]
  obtain ⟨front, final, split', notEnds, -, -, start, stop⟩ :=
    tiles.finished (tiles.finished_of_end isLast lastKind)
  obtain ⟨rfl, same⟩ := List.append_inj' (split.symm.trans split') rfl
  obtain rfl := List.head_eq_of_cons_eq same
  have inside : ∀ t ∈ body, t ∈ stream.tokens := fun t member => by simp [split, member]
  refine ⟨body, last, _, split, notEnds,
    between_map_plain (Nat.zero_le _) ?_ ?_ fun t member => ?_, start, stop, rfl, inner⟩
  · rw [split] at chain
    exact chain.left_of_append
  · have ordered := tiles.ordered
    rw [split] at ordered
    exact (List.pairwise_append.1 ordered).1.imp And.right
  · refine ⟨Nat.zero_le _, tiles.room (inside t member) (notEnds t member), ?_⟩
    exact (tiles.places t (inside t member)).2.inside

/-- A script without statements is the end of its text; another one lies on tokens. -/
theorem root_lies (words : g.WordsOnly) (dropped : g.retainComments = false)
    (parsed : Block.ofSource g source = .ok script) :
    (script.statements = [] ∧ script.span.start.offset = source.text.length ∧
      script.span.stop.offset = source.text.length) ∨
    ∃ ts, Between source.text.length 0 ts ∧
      ts ⊆ (TokenStream.ofSource g source).tokens.map Item.plain ∧
      On false ts [.block script] := by
  obtain ⟨body, last, ss, tokens, -, between, start, stop, rfl, phrase⟩ :=
    body_of_source words dropped parsed
  cases body with
  | nil =>
    cases phrase
    exact .inl ⟨rfl, start, stop⟩
  | cons first rest =>
    refine .inr ⟨_, between, ?_, .whole (blockSpan_cons none _ _ _) rfl nofun (phrase.on rfl)⟩
    rw [tokens]
    exact List.map_subset _ (List.subset_append_left _ _)

/-- The nodes of a script delimit their parts. -/
theorem delimits (words : g.WordsOnly) (dropped : g.retainComments = false)
    (parsed : Block.ofSource g source = .ok script) : ∀ n ∈ script.walk,
      n.Delimits ((TokenStream.ofSource g source).tokens.map Item.plain) := by
  intro n member
  rcases root_lies words dropped parsed with ⟨none, -, -⟩ | ⟨ts, between, inside, on⟩
  · obtain ⟨span, ss⟩ := script
    obtain rfl : ss = [] := none
    obtain rfl := List.mem_singleton.1 member
    exact ⟨fun some => absurd rfl some, nofun⟩
  · exact (on.below between _ List.mem_cons_self n member).mono inside

/-- A node of a script that takes up room begins with a token and ends with one. -/
theorem tokens_of_room (words : g.WordsOnly) (dropped : g.retainComments = false)
    (parsed : Block.ofSource g source = .ok script) {n : Node} (member : n ∈ script.walk)
    (room : n.left < n.right) : ∃ first ∈ (TokenStream.ofSource g source).tokens,
      ∃ last ∈ (TokenStream.ofSource g source).tokens,
        n.span.start = first.span.start ∧ n.span.stop = last.span.stop := by
  have lies : ∃ bodies lo,
      n.Lies bodies ((TokenStream.ofSource g source).tokens.map Item.plain) lo := by
    rcases Node.eq_or_child_of_mem_walk (n := .block script) member with
      rfl | ⟨parent, above, child⟩
    · rcases root_lies words dropped parsed with ⟨-, start, stop⟩ | ⟨ts, between, inside, on⟩
      · exact absurd room (by rw [Node.left, Node.right, Node.span, start, stop]; omega)
      · exact ⟨_, _, (on.row between).1.mono inside⟩
    · have delimits := delimits words dropped parsed parent above
      have part := parent.parts_perm.mem_iff.2 child
      exact ⟨_, _, ((delimits.row (List.ne_nil_of_mem part)).lies n part).1⟩
  obtain ⟨bodies, lo, lies⟩ := lies
  cases lies with
  | hollow _ _ reversed => exact absurd room (Nat.lt_asymm reversed)
  | filled _ _ _ first last =>
    obtain ⟨item, member, start⟩ := first
    obtain ⟨item', member', stop⟩ := last
    obtain ⟨t, inTokens, rfl⟩ := List.mem_map.1 member
    obtain ⟨t', inTokens', rfl⟩ := List.mem_map.1 member'
    exact ⟨t, inTokens, t', inTokens', start, stop⟩

end Block

end InstallScript
