import InstallScript.Proofs.Syntax.Tiling

/-!
The tokens of a text are handed out once (`tokens_handed_out_once`). Whatever is done to a reader of
tokens in whatever order, it delivers the tokens of its text one after the other, and then what is
wrong with the text; reading is begun once, and every other attempt is refused and changes nothing.

A reader knows all tokens from the start. A scanner does not: it stands in front of the rest of a
text and reads on when it is asked for a token. Both show the same, at the same places
(`TokenScanner.moves_reader`).
-/

namespace InstallScript

/-! ## Moves -/

namespace TokenReader

/-- What can be done to a reader. -/
inductive Move
  /-- Begins to read, to take tokens one by one. -/
  | start
  | next
  /-- Begins to read and takes all tokens. -/
  | drain
  deriving DecidableEq, Repr

/-- What a move gives. -/
inductive Report
  | started
  | delivered (delivery : Delivery)
  | drained (all : Except ScriptError (List Token))
  | refused

/-- What is delivered, if something is. -/
def Report.delivery? : Report → Option Delivery
  | .delivered d => some d
  | _ => none

/-- What a move gives. -/
def report (r : TokenReader) : Move → Report
  | .start => if r.open?.isSome then .started else .refused
  | .next => .delivered r.next.1
  | .drain => (r.drain?.map fun out => .drained out.1).getD .refused

/-- A reader after a move. -/
def move (r : TokenReader) : Move → TokenReader
  | .start => r.open?.getD r
  | .next => r.next.2
  | .drain => (r.drain?.map Prod.snd).getD r

/-- What moves give, in order. -/
def reports (r : TokenReader) : List Move → List Report
  | [] => []
  | m :: moves => r.report m :: (r.move m).reports moves

end TokenReader

/-! ## Scanning on demand -/

/-- A scanner that reads a text as it is asked for tokens: it stands in front of the rest. -/
structure TokenScanner where
  grammar : Grammar
  file : Option String
  /-- The lines of the whole text, for what is wrong with it. -/
  lines : List String
  rest : List Char
  place : Location := {}
  opened : Bool := false
  /-- The end, or what is wrong with the text, has been delivered. -/
  ended : Bool := false

namespace TokenScanner

open TokenReader (Move)

/-- A scanner in front of a whole text. -/
def ofSource (g : Grammar) (source : Source) : TokenScanner where
  grammar := g
  file := source.file
  lines := source.lines
  rest := source.text

/-- Reads on up to the end of the next token. Comments are passed over if they are dropped. -/
def scanOn : Nat → TokenScanner → Delivery × TokenScanner
  | 0, s => (.token (TokenStream.endToken s.file s.place), { s with ended := true })
  | steps + 1, s =>
    let start := s.place.after (s.rest.takeWhile isGap)
    match s.rest.dropWhile isGap with
    | [] =>
      (.token (TokenStream.endToken s.file start),
        { s with rest := [], place := start, ended := true })
    | c :: rest =>
      match scan s.grammar c rest with
      | .fault fault lead length =>
        let stop := start.after ((c :: rest).take length)
        let span : Span := ⟨start.after ((c :: rest).take lead), stop, s.file⟩
        (.failure (ScriptError.withLine ⟨fault, some span, none⟩ s.lines),
          { s with rest := (c :: rest).drop length, place := stop, ended := true })
      | .token kind value length =>
        let lexeme := (c :: rest).take length
        let stop := start.after lexeme
        let behind := { s with rest := (c :: rest).drop length, place := stop }
        if kind = .comment ∧ s.grammar.retainComments = false then scanOn steps behind
        else (.token ⟨kind, value, String.ofList lexeme, ⟨start, stop, s.file⟩⟩, behind)

/-- Takes the next token. -/
def next (s : TokenScanner) : Delivery × TokenScanner :=
  if s.opened && !s.ended then scanOn (s.rest.length + 1) s else (.exhausted, s)

/-- Takes tokens up to the end or to what is wrong with the text. -/
def takeAll : Nat → TokenScanner → Except ScriptError (List Token) × TokenScanner
  | 0, s => (.ok [], s)
  | steps + 1, s =>
    match s.next with
    | (.token t, s') => ((takeAll steps s').1.map (t :: ·), (takeAll steps s').2)
    | (.failure error, s') => (.error error, s')
    | (.exhausted, s') => (.ok [], s')

/-- All tokens from the start. There are at most as many steps as characters, one for the end and
one that finds nothing more. -/
def drained (s : TokenScanner) : Except ScriptError (List Token) × TokenScanner :=
  takeAll (s.rest.length + 2) { s with opened := true }

/-- What a move gives. -/
def report (s : TokenScanner) : Move → TokenReader.Report
  | .start => if s.opened then .refused else .started
  | .next => .delivered s.next.1
  | .drain => if s.opened then .refused else .drained s.drained.1

/-- A scanner after a move. -/
def move (s : TokenScanner) : Move → TokenScanner
  | .start => if s.opened then s else { s with opened := true }
  | .next => s.next.2
  | .drain => if s.opened then s else s.drained.2

/-- What moves give, in order. -/
def reports (s : TokenScanner) : List Move → List TokenReader.Report
  | [] => []
  | m :: moves => s.report m :: (s.move m).reports moves

/-- The reader that knows what a scanner is going to find. -/
def reader (s : TokenScanner) : TokenReader where
  stream :=
    if s.ended then ⟨[], .finished⟩
    else TokenStream.tokensFrom s.grammar s.file s.lines (s.rest.length + 1) s.place s.rest
  opened := s.opened
  place := s.place

end TokenScanner

/-! ## Steps that are left -/

theorem scan_takes {g : Grammar} {c : Char} {rest : List Char} {kind : TokenKind}
    {value : TokenValue} {length : Nat} (found : scan g c rest = .token kind value length) :
    0 < length := by
  unfold scan at found
  split at found
  · exact (found_of_scanLineComment found).takes
  split at found
  · rename_i opens
    obtain ⟨more, rfl⟩ := List.head?_eq_some_iff.1 opens.2
    exact (found_of_scanBlockComment found).takes
  split at found
  · have quoted : Found [] kind value length := found_of_scanQuoted found
    exact quoted.takes
  split at found
  · exact (found_of_scanNumber ‹_› found).takes
  split at found
  · exact scanWord_takes ‹_› found
  · have symbol : Found [] kind value length := found_of_scanSymbol found
    exact symbol.takes

namespace TokenStream

variable {g : Grammar} {file : Option String} {lines : List String}

/-- What is left behind a token is shorter. -/
theorem length_behind {cs rest : List Char} {c : Char} {kind : TokenKind} {value : TokenValue}
    {length : Nat} (behind : cs.dropWhile isGap = c :: rest)
    (found : scan g c rest = .token kind value length) :
    ((c :: rest).drop length).length < cs.length := by
  have takes := scan_takes found
  have shorter : (c :: rest).length ≤ cs.length := behind ▸ (List.dropWhile_sublist _).length_le
  rw [List.length_drop]
  rw [List.length_cons] at shorter ⊢
  omega

/-- The tokens of a text do not depend on the number of steps, if there are enough. -/
theorem tokensFrom_steps : ∀ (steps steps' : Nat) (place : Location) (cs : List Char),
    cs.length < steps → cs.length < steps' →
      tokensFrom g file lines steps place cs = tokensFrom g file lines steps' place cs
  | 0, _, _, _, bound, _ => absurd bound (Nat.not_lt_zero _)
  | _, 0, _, _, _, bound => absurd bound (Nat.not_lt_zero _)
  | steps + 1, steps' + 1, place, cs, bound, bound' => by
    unfold tokensFrom
    dsimp only
    split
    · rfl
    · rename_i c rest behind
      split
      · rfl
      · rename_i kind value length found
        have shorter := length_behind behind found
        rw [tokensFrom_steps steps steps' _ _ (by omega) (by omega)]

/-- There are at most as many tokens as characters, and one for the end. -/
theorem length_tokensFrom_le : ∀ (steps : Nat) (place : Location) (cs : List Char),
    cs.length < steps → (tokensFrom g file lines steps place cs).tokens.length ≤ cs.length + 1
  | 0, _, _, bound => absurd bound (Nat.not_lt_zero _)
  | steps + 1, place, cs, bound => by
    unfold tokensFrom
    dsimp only
    split
    · exact Nat.le_add_left _ _
    · rename_i c rest behind
      split
      · exact Nat.zero_le _
      · rename_i kind value length found
        have shorter := length_behind behind found
        have others (place : Location) := length_tokensFrom_le steps place
          ((c :: rest).drop length) (by omega)
        split
        · exact (others _).trans (by omega)
        · exact (Nat.succ_le_succ (others _)).trans (by omega)

/-- Where reading stops that begins at a place. -/
def finish (s : TokenStream) (start : Location) : Location :=
  match s.ending with
  | .finished => stopOf start s.tokens
  | .failed _ stop => stop

/-- What is delivered, one after the other. -/
def deliveries (s : TokenStream) : List Delivery :=
  s.tokens.map .token ++
    match s.ending with
    | .finished => []
    | .failed error _ => [.failure error]

end TokenStream

theorem TokenReader.drain?_of_closed {r : TokenReader} (closed : r.opened = false) :
    r.drain? = some (r.stream.toList, ⟨⟨[], .finished⟩, true, r.stream.finish r.place⟩) := by
  have notOpened : ¬ r.opened = true := by
    rw [closed]
    exact Bool.false_ne_true
  rw [drain?, if_neg notOpened]
  unfold TokenStream.finish
  cases r.stream.ending <;> rfl

/-! ## Scanners and readers -/

namespace TokenScanner

open TokenReader (Move)

theorem scanOn_opened : ∀ (steps : Nat) (s : TokenScanner),
    (scanOn steps s).2.opened = s.opened
  | 0, _ => rfl
  | steps + 1, s => by
    unfold scanOn
    dsimp only
    split
    · rfl
    · split
      · rfl
      · split
        · exact scanOn_opened steps _
        · rfl

/-- What a scanner finds is what the tokens from its place on begin with. -/
theorem next_of_scanOn (place : Location) : ∀ (steps : Nat) (s : TokenScanner), s.opened = true →
    s.ended = false → s.rest.length < steps →
      TokenReader.next ⟨TokenStream.tokensFrom s.grammar s.file s.lines steps s.place s.rest, true,
        place⟩ = ((scanOn steps s).1, (scanOn steps s).2.reader)
  | 0, _, _, _, bound => absurd bound (Nat.not_lt_zero _)
  | steps + 1, ⟨g, file, lines, cs, at', _, _⟩, rfl, rfl, bound => by
    have bound : cs.length < steps + 1 := bound
    unfold TokenStream.tokensFrom scanOn
    dsimp only
    cases behind : cs.dropWhile isGap with
    | nil => rfl
    | cons c rest =>
      dsimp only
      cases found : scan g c rest with
      | fault fault lead length => rfl
      | token kind value length =>
        have shorter := TokenStream.length_behind behind found
        dsimp only
        by_cases dropped : kind = .comment ∧ g.retainComments = false
        · rw [if_pos dropped, if_pos dropped]
          have goesOn := next_of_scanOn place steps
            ⟨g, file, lines, (c :: rest).drop length, (at'.after (cs.takeWhile isGap)).after
              ((c :: rest).take length), true, false⟩ rfl rfl
          exact goesOn (by dsimp only; omega)
        · rw [if_neg dropped, if_neg dropped, TokenStream.tokensFrom_steps steps
            (((c :: rest).drop length).length + 1) _ _ (by omega) (Nat.lt_succ_self _)]
          rfl

theorem reader_next (s : TokenScanner) : s.reader.next = (s.next.1, s.next.2.reader) := by
  obtain ⟨g, file, lines, rest, place, opened, ended⟩ := s
  cases opened with
  | false => rfl
  | true =>
    cases ended with
    | true => rfl
    | false =>
      exact next_of_scanOn place _ ⟨g, file, lines, rest, place, true, false⟩ rfl rfl
        (Nat.lt_succ_self _)

theorem next_opened {s : TokenScanner} (opened : s.opened = true) : s.next.2.opened = true := by
  unfold next
  split
  · exact (scanOn_opened _ s).trans opened
  · exact opened

/-- A scanner that takes all tokens comes to those that are ahead of it, and to their end. -/
theorem takeAll_reader : ∀ (steps : Nat) (s : TokenScanner), s.opened = true →
    s.reader.stream.tokens.length < steps →
      (takeAll steps s).1 = s.reader.stream.toList ∧
        (takeAll steps s).2.reader = ⟨⟨[], .finished⟩, true, s.reader.stream.finish s.place⟩
  | 0, _, _, enough => absurd enough (Nat.not_lt_zero _)
  | steps + 1, s, opened, enough => by
    have step := s.reader_next
    have opened' : s.reader.opened = true := opened
    have place : s.reader.place = s.place := rfl
    have stays := next_opened opened
    unfold takeAll
    generalize s.reader = r at step opened' place enough ⊢
    obtain ⟨⟨tokens, ending⟩, _, _⟩ := r
    cases opened'
    cases place
    generalize s.next = out at step stays ⊢
    obtain ⟨d, s'⟩ := out
    cases tokens with
    | cons t tokens =>
      obtain ⟨rfl, later⟩ := Prod.mk.inj step
      have shorter : s'.reader.stream.tokens.length < steps := by
        rw [← later]
        exact Nat.lt_of_succ_lt_succ enough
      obtain ⟨all, final⟩ := takeAll_reader steps s' stays shorter
      have place' : s'.place = t.span.stop := (congrArg TokenReader.place later).symm
      rw [← later, place'] at final
      rw [← later] at all
      dsimp only
      rw [all, final]
      cases ending with
      | finished => exact ⟨rfl, by simp only [TokenStream.finish, TokenStream.stopOf_cons]⟩
      | failed error stop => exact ⟨rfl, rfl⟩
    | nil =>
      cases ending with
      | finished =>
        obtain ⟨rfl, later⟩ := Prod.mk.inj step
        exact ⟨rfl, later.symm⟩
      | failed error stop =>
        obtain ⟨rfl, later⟩ := Prod.mk.inj step
        exact ⟨rfl, later.symm⟩

theorem drained_reader {s : TokenScanner} (closed : s.opened = false) :
    s.reader.drain? = some (s.drained.1, s.drained.2.reader) := by
  have enough : ({ s with opened := true } : TokenScanner).reader.stream.tokens.length <
      s.rest.length + 2 := by
    unfold reader
    dsimp only
    split
    · exact Nat.succ_pos _
    · exact Nat.lt_succ_of_le (TokenStream.length_tokensFrom_le _ _ _ (Nat.lt_succ_self _))
  obtain ⟨all, final⟩ := takeAll_reader (s.rest.length + 2) { s with opened := true } rfl enough
  have closed' : s.reader.opened = false := closed
  have ahead : ({ s with opened := true } : TokenScanner).reader =
      { s.reader with opened := true } := rfl
  rw [drained, all, final, ahead, TokenReader.drain?_of_closed closed']
  rfl

/-- A move shows the same of a scanner and of the reader that knows what the scanner will find. -/
theorem move_reader (s : TokenScanner) (m : Move) :
    s.reader.report m = s.report m ∧ s.reader.move m = (s.move m).reader := by
  cases m with
  | next =>
    have step := s.reader_next
    exact ⟨congrArg (fun out : Delivery × TokenReader => TokenReader.Report.delivered out.1) step,
      congrArg Prod.snd step⟩
  | start =>
    obtain ⟨g, file, lines, rest, place, opened, ended⟩ := s
    cases opened <;> exact ⟨rfl, rfl⟩
  | drain =>
    cases opened : s.opened with
    | true =>
      have again : s.reader.drain? = none := if_pos opened
      simp only [TokenReader.report, TokenReader.move, report, move, again, opened]
      exact ⟨rfl, rfl⟩
    | false =>
      simp only [TokenReader.report, TokenReader.move, report, move, drained_reader opened, opened]
      exact ⟨rfl, rfl⟩

/-- So do the moves of a history. -/
theorem moves_reader (s : TokenScanner) (moves : List Move) :
    s.reader.reports moves = s.reports moves ∧
      moves.foldl TokenReader.move s.reader = (moves.foldl TokenScanner.move s).reader := by
  induction moves generalizing s with
  | nil => exact ⟨rfl, rfl⟩
  | cons m moves ih =>
    obtain ⟨report, move⟩ := s.move_reader m
    obtain ⟨reports, final⟩ := ih (s.move m)
    rw [TokenReader.reports, List.foldl_cons, report, move, reports, final]
    exact ⟨rfl, rfl⟩

/-! ### Places -/

/-- A scanner has read a text up to the place where it stands. -/
def Stands (text : List Char) (s : TokenScanner) : Prop :=
  ∃ read, text = read ++ s.rest ∧ s.place = ({} : Location).after read

/-- What is read behind a stretch of a text is read of the text. -/
theorem Stands.more {text read : List Char} {s s' : TokenScanner} (stands : s.Stands text)
    (split : s.rest = read ++ s'.rest) (place : s'.place = s.place.after read) :
    s'.Stands text := by
  obtain ⟨before, eq, reached⟩ := stands
  refine ⟨before ++ read, ?_, ?_⟩
  · rw [List.append_assoc, ← split, eq]
  · rw [place, reached, Location.after_append]

theorem Stands.scanOn {text : List Char} : ∀ (steps : Nat) {s : TokenScanner}, s.Stands text →
    (scanOn steps s).2.Stands text
  | 0, _, stands => stands
  | steps + 1, s, stands => by
    have split := List.takeWhile_append_dropWhile (p := isGap) (l := s.rest)
    unfold TokenScanner.scanOn
    dsimp only
    generalize s.rest.takeWhile isGap = gap at split ⊢
    cases behind : s.rest.dropWhile isGap with
    | nil =>
      rw [behind] at split
      exact stands.more split.symm rfl
    | cons c rest =>
      rw [behind] at split
      have taken (length : Nat) :
          s.rest = (gap ++ (c :: rest).take length) ++ (c :: rest).drop length := by
        rw [List.append_assoc, List.take_append_drop, split]
      have after' (length : Nat) := (Location.after_append s.place gap
        ((c :: rest).take length)).symm
      dsimp only
      cases scan s.grammar c rest with
      | fault fault lead length => exact stands.more (taken length) (after' length)
      | token kind value length =>
        dsimp only
        by_cases dropped : kind = .comment ∧ s.grammar.retainComments = false
        · rw [if_pos dropped]
          exact Stands.scanOn steps (stands.more (taken length) (after' length))
        · rw [if_neg dropped]
          exact stands.more (taken length) (after' length)

theorem Stands.next {text : List Char} {s : TokenScanner} (stands : s.Stands text) :
    s.next.2.Stands text := by
  unfold TokenScanner.next
  split
  · exact stands.scanOn _
  · exact stands

theorem Stands.takeAll {text : List Char} : ∀ (steps : Nat) {s : TokenScanner}, s.Stands text →
    (takeAll steps s).2.Stands text
  | 0, _, stands => stands
  | steps + 1, s, stands => by
    have stands' := stands.next
    unfold TokenScanner.takeAll
    generalize s.next = out at stands' ⊢
    obtain ⟨d, s'⟩ := out
    cases d with
    | token t => exact Stands.takeAll steps stands'
    | failure | exhausted => exact stands'

theorem Stands.move {text : List Char} {s : TokenScanner} (stands : s.Stands text) (m : Move) :
    (s.move m).Stands text := by
  have opens : ({ s with opened := true } : TokenScanner).Stands text := stands
  cases m with
  | next => exact stands.next
  | start =>
    dsimp only [TokenScanner.move]
    split
    · exact stands
    · exact opens
  | drain =>
    dsimp only [TokenScanner.move]
    split
    · exact stands
    · exact opens.takeAll _

theorem Stands.moves {text : List Char} {s : TokenScanner} (stands : s.Stands text)
    (moves : List Move) : (moves.foldl TokenScanner.move s).Stands text := by
  induction moves generalizing s with
  | nil => exact stands
  | cons m moves ih => exact ih (stands.move m)

end TokenScanner

/-! ## Deliveries -/

namespace TokenReader

variable {r : TokenReader}

/-- What the next step gives, and what is left. -/
theorem next_deliveries (opened : r.opened = true) :
    r.next.1 = r.stream.deliveries.head?.getD .exhausted ∧
      r.next.2.stream.deliveries = r.stream.deliveries.tail ∧ r.next.2.opened = true ∧
      r.next.2.stream.finish r.next.2.place = r.stream.finish r.place := by
  obtain ⟨⟨tokens, ending⟩, _, place⟩ := r
  cases opened
  cases tokens with
  | cons t tokens =>
    refine ⟨rfl, rfl, rfl, ?_⟩
    cases ending with
    | finished => exact (TokenStream.stopOf_cons place t tokens).symm
    | failed error stop => rfl
  | nil => cases ending <;> exact ⟨rfl, rfl, rfl, rfl⟩

/-- A move that begins to read again is refused and changes nothing. -/
theorem refused_of_opened (opened : r.opened = true) {m : Move} (begins : m ≠ .next) :
    r.report m = .refused ∧ r.move m = r := by
  obtain ⟨stream, _, place⟩ := r
  cases opened
  cases m with
  | start | drain => exact ⟨rfl, rfl⟩
  | next => exact absurd rfl begins

theorem reports_append (r : TokenReader) (before after : List Move) :
    r.reports (before ++ after) = r.reports before ++ (before.foldl move r).reports after := by
  induction before generalizing r with
  | nil => rfl
  | cons m before ih => exact congrArg (r.report m :: ·) (ih (r.move m))

/-- As long as reading has not begun nothing is delivered. -/
theorem moves_of_closed (closed : r.opened = false) {moves : List Move}
    (steps : ∀ m ∈ moves, m = .next) :
    moves.foldl move r = r ∧ r.reports moves = moves.map fun _ => .delivered .exhausted := by
  have nothing : r.next = (.exhausted, r) := by
    unfold next
    rw [closed]
    rfl
  induction moves with
  | nil => exact ⟨rfl, rfl⟩
  | cons m moves ih =>
    obtain ⟨rfl, later⟩ := List.forall_mem_cons.1 steps
    obtain ⟨final, reports'⟩ := ih later
    have stays : r.move .next = r := congrArg Prod.snd nothing
    have report : r.report .next = .delivered .exhausted :=
      congrArg (fun out : Delivery × TokenReader => Report.delivered out.1) nothing
    rw [List.foldl_cons, reports, stays, report, final, reports']
    exact ⟨rfl, rfl⟩

theorem opened_of_moves (opened : r.opened = true) (moves : List Move) :
    (moves.foldl move r).opened = true := by
  induction moves generalizing r with
  | nil => exact opened
  | cons m moves ih =>
    refine ih ?_
    by_cases isNext : m = .next
    · subst isNext
      exact (next_deliveries opened).2.2.1
    · rw [(refused_of_opened opened isNext).2]
      exact opened

/-- Once reading has begun the deliveries come one after the other, and nothing after them. -/
theorem deliveries_of_opened (opened : r.opened = true) (moves : List Move) :
    (r.reports moves).filterMap Report.delivery? =
      (List.range (moves.count .next)).map fun j => r.stream.deliveries[j]?.getD .exhausted := by
  induction moves generalizing r with
  | nil => rfl
  | cons m moves ih =>
    by_cases isNext : m = .next
    · subst isNext
      obtain ⟨first, others, opened', -⟩ := next_deliveries opened
      have later := ih (r := r.move .next) opened'
      have tail : (r.move .next).stream.deliveries = r.stream.deliveries.tail := others
      have given : (r.report .next).delivery? = some r.next.1 := rfl
      rw [reports, List.filterMap_cons_some given, later, tail, first,
        List.count_cons_self, List.range_succ_eq_map, List.map_cons, List.map_map,
        List.head?_eq_getElem?]
      refine congrArg _ (List.map_congr_left fun j _ => ?_)
      rw [List.getElem?_tail]
      rfl
    · obtain ⟨report, move⟩ := refused_of_opened opened isNext
      have nothing : Report.refused.delivery? = none := rfl
      rw [reports, report, move, List.filterMap_cons_none nothing, ih opened,
        List.count_cons_of_ne isNext]

theorem stays_of_opened (opened : r.opened = true) {moves : List Move} (noStep : .next ∉ moves) :
    moves.foldl move r = r := by
  induction moves with
  | nil => rfl
  | cons m moves ih =>
    obtain ⟨begins, later⟩ := not_or.1 (mt List.mem_cons.2 noStep)
    rw [List.foldl_cons, (refused_of_opened opened (Ne.symm begins)).2]
    exact ih later

/-- After a token has been taken the reader stands at its end. -/
theorem place_of_opened (opened : r.opened = true) {moves : List Move} {k : Nat} {t : Token}
    (count : moves.count .next = k + 1) (token : r.stream.tokens[k]? = some t) :
    (moves.foldl move r).place = t.span.stop := by
  induction moves generalizing r k with
  | nil => cases count
  | cons m moves ih =>
    by_cases isNext : m = .next
    · subst isNext
      rw [List.count_cons_self] at count
      obtain ⟨⟨tokens, ending⟩, _, place⟩ := r
      cases opened
      cases tokens with
      | nil => cases token
      | cons first tokens =>
        cases k with
        | zero =>
          cases token
          have noStep : Move.next ∉ moves := List.count_eq_zero.1 (Nat.succ.inj count)
          rw [List.foldl_cons, stays_of_opened rfl noStep]
          rfl
        | succ k =>
          exact ih rfl (Nat.succ.inj count) token
    · rw [List.count_cons_of_ne isNext] at count
      rw [List.foldl_cons, (refused_of_opened opened isNext).2]
      exact ih opened count token

/-- After everything has been delivered the reader stands where reading stops. -/
theorem finish_of_opened (opened : r.opened = true) {moves : List Move}
    (all : r.stream.deliveries.length ≤ moves.count .next) :
    (moves.foldl move r).place = r.stream.finish r.place := by
  induction moves generalizing r with
  | nil =>
    obtain ⟨⟨tokens, ending⟩, _, place⟩ := r
    have none := List.eq_nil_of_length_eq_zero (Nat.le_zero.1 all)
    obtain ⟨noTokens, noFailure⟩ := List.append_eq_nil_iff.1 none
    cases List.map_eq_nil_iff.1 noTokens
    cases ending with
    | finished => rfl
    | failed => cases noFailure
  | cons m moves ih =>
    by_cases isNext : m = .next
    · subst isNext
      obtain ⟨-, others, opened', finish⟩ := next_deliveries opened
      rw [List.foldl_cons, ← finish]
      refine ih opened' ?_
      rw [move, others, List.length_tail]
      rw [List.count_cons_self] at all
      omega
    · rw [List.count_cons_of_ne isNext] at all
      rw [List.foldl_cons, (refused_of_opened opened isNext).2]
      exact ih opened all

/-- Reading has begun if a move has begun it. -/
theorem opened_of_begun (r : TokenReader) {moves : List Move} (begun : ∃ m ∈ moves, m ≠ .next) :
    (moves.foldl move r).opened = true := by
  obtain ⟨m, member, begins⟩ := begun
  obtain ⟨before, after, rfl⟩ := List.append_of_mem member
  rw [List.foldl_append]
  refine opened_of_moves (r := (before.foldl move r).move m) ?_ after
  cases opened : (before.foldl move r).opened with
  | true => rw [(refused_of_opened opened begins).2, opened]
  | false =>
    cases m with
    | start => simp [move, open?, opened]
    | drain => simp [move, drain?, opened]
    | next => exact absurd rfl begins

end TokenReader

/-- The end of a text, and what is wrong with it, is delivered last. -/
theorem TokenStream.last_delivery (g : Grammar) (words : g.WordsOnly) (source : Source) {j : Nat}
    {d : Delivery} (delivered : (ofSource g source).deliveries[j]? = some d)
    (ends : ∀ t, d = .token t → t.kind = .endOfInput) :
    j + 1 = (ofSource g source).deliveries.length := by
  have tiles := (ofSource_laid words source).tiles_text
  -- Of what is delivered before the last one, everything is a token that is not the end.
  have isLast {front : List Token} {x : Delivery}
      (split : (ofSource g source).deliveries = front.map .token ++ [x])
      (notEnds : ∀ t ∈ front, t.kind ≠ .endOfInput) :
      j + 1 = (ofSource g source).deliveries.length := by
    rw [split] at delivered ⊢
    rcases Nat.lt_or_ge j (front.map Delivery.token).length with early | late
    · rw [List.getElem?_append_left early] at delivered
      obtain ⟨t, member, rfl⟩ := List.mem_map.1 (List.mem_of_getElem? delivered)
      exact absurd (ends t rfl) (notEnds t member)
    · have inside := (List.getElem?_eq_some_iff.1 delivered).1
      rw [List.length_append, List.length_singleton] at inside ⊢
      omega
  cases ending : (ofSource g source).ending with
  | finished =>
    obtain ⟨body, last, tokens, notEnds, -⟩ := tiles.finished ending
    refine isLast (x := .token last) ?_ notEnds
    rw [deliveries, ending, tokens, List.map_append, List.append_nil]
    rfl
  | failed error stop =>
    refine isLast (x := .failure error) ?_ (tiles.failed error stop ending).1
    rw [deliveries, ending]

/-- Whatever is done to a reader of the tokens of a text, in whatever order, it shows what a scanner
shows that reads on as it is asked, and stands where the scanner stands: behind the characters that
have been read. Reading is begun once; every other attempt is refused and changes nothing. Once it
has begun, the tokens of the text are delivered one after the other, up to its end or to what is
wrong with it, and nothing after that; the reader then stands at the end of the last one. Whoever
takes all at once is given the same. -/
theorem tokens_handed_out_once (g : Grammar) (source : Source) (moves : List TokenReader.Move) :
    let stream := TokenStream.ofSource g source
    let start := TokenReader.ofSource g source
    let reader := moves.foldl TokenReader.move start
    let scanner := moves.foldl TokenScanner.move (TokenScanner.ofSource g source)
    (start.reports moves = (TokenScanner.ofSource g source).reports moves ∧
      reader = scanner.reader ∧ scanner.Stands source.text) ∧
    (∀ m, m ≠ .next → (∃ m' ∈ moves, m' ≠ .next) →
      reader.report m = .refused ∧ reader.move m = reader) ∧
    (∀ m before after, m ≠ .next → moves = before ++ m :: after → (∀ m' ∈ before, m' = .next) →
      ∃ later, start.reports moves =
          before.map (fun _ => .delivered .exhausted) ++ start.report m :: later ∧
        (m = .start → start.report m = .started ∧
          later.filterMap TokenReader.Report.delivery? = (List.range (after.count .next)).map
            (fun j => stream.deliveries[j]?.getD .exhausted) ∧
          (∀ k t, after.count .next = k + 1 → stream.tokens[k]? = some t →
            reader.place = t.span.stop) ∧
          (stream.deliveries.length ≤ after.count .next → reader.place = stream.finish {})) ∧
        (m = .drain → start.report m = .drained stream.toList ∧
          later.filterMap TokenReader.Report.delivery? =
            List.replicate (after.count .next) .exhausted ∧
          reader.place = stream.finish {})) ∧
    (g.WordsOnly → ∀ j d, stream.deliveries[j]? = some d →
      (∀ t, d = .token t → t.kind = .endOfInput) → j + 1 = stream.deliveries.length) := by
  intro stream start reader scanner
  have fresh : (TokenScanner.ofSource g source).reader = start := rfl
  obtain ⟨reports, same⟩ := (TokenScanner.ofSource g source).moves_reader moves
  rw [fresh] at reports same
  have stands : (TokenScanner.ofSource g source).Stands source.text := ⟨[], rfl, rfl⟩
  refine ⟨⟨reports, same, stands.moves moves⟩, fun m begins begun => ?_,
    fun m before after begins split steps => ?_,
    fun words j d delivered ends => TokenStream.last_delivery g words source delivered ends⟩
  · exact TokenReader.refused_of_opened (start.opened_of_begun begun) begins
  · obtain ⟨final, given⟩ := TokenReader.moves_of_closed (r := start) rfl steps
    have reached : reader = after.foldl TokenReader.move (start.move m) := by
      show moves.foldl TokenReader.move start = _
      rw [split, List.foldl_append, final, List.foldl_cons]
    refine ⟨(start.move m).reports after, ?_, ?_, ?_⟩
    · rw [split, TokenReader.reports_append, given, final]
      rfl
    · rintro rfl
      have opened : (start.move .start).opened = true := rfl
      rw [reached]
      exact ⟨rfl, TokenReader.deliveries_of_opened opened after,
        fun k t count token => TokenReader.place_of_opened opened count token,
        fun all => TokenReader.finish_of_opened opened all⟩
    · rintro rfl
      have drained : start.move .drain = ⟨⟨[], .finished⟩, true, stream.finish {}⟩ :=
        congrArg (fun out? => (out?.map Prod.snd).getD start) (start.drain?_of_closed rfl)
      rw [reached, drained]
      refine ⟨rfl, ?_, TokenReader.finish_of_opened rfl (Nat.zero_le _)⟩
      have nothing : TokenStream.deliveries ⟨[], .finished⟩ = [] := rfl
      simp only [TokenReader.deliveries_of_opened, nothing, List.getElem?_nil, Option.getD_none,
        List.map_const', List.length_range]

/-- Behind the first token of a text that breaks off, taking all tokens is refused. -/
theorem unclosedText_handed_out :
    let stream := TokenStream.ofSource Grammar.second ⟨unclosedText, none⟩
    let reader := [TokenReader.Move.start, .next].foldl TokenReader.move
      (TokenReader.ofSource Grammar.second ⟨unclosedText, none⟩)
    reader.report .drain = .refused ∧ reader.move .drain = reader ∧
      (∃ t, stream.tokens[0]? = some t ∧ t.lexeme = "x" ∧ reader.place = t.span.stop) ∧
      Grammar.second.WordsOnly ∧ ∃ error, stream.deliveries[2]? = some (.failure error) ∧
        2 + 1 = stream.deliveries.length := by
  have words : Grammar.second.WordsOnly := Grammar.Standard.wordsOnly (.inr rfl)
  have first : (TokenStream.ofSource Grammar.second ⟨unclosedText, none⟩).tokens[0]?.map
      Token.lexeme = some "x" := by decide +kernel
  have two : (TokenStream.ofSource Grammar.second ⟨unclosedText, none⟩).tokens.length = 2 := by
    decide +kernel
  have fails : (TokenStream.ofSource Grammar.second ⟨unclosedText, none⟩).toList.isOk = false := by
    decide +kernel
  obtain ⟨-, refuses, begins, last⟩ :=
    tokens_handed_out_once Grammar.second ⟨unclosedText, none⟩ [.start, .next]
  obtain ⟨refused, stays⟩ :=
    refuses .drain (by decide) ⟨.start, List.mem_cons_self, by decide⟩
  obtain ⟨later, -, taken, -⟩ :=
    begins .start [] [.next] (by decide) rfl (List.forall_mem_nil _)
  obtain ⟨-, -, place, -⟩ := taken rfl
  obtain ⟨t, token, lexeme⟩ := Option.map_eq_some_iff.1 first
  refine ⟨refused, stays, ⟨t, token, lexeme, place 0 t rfl token⟩, words, ?_⟩
  cases ending : (TokenStream.ofSource Grammar.second ⟨unclosedText, none⟩).ending with
  | finished =>
    rw [TokenStream.toList, ending] at fails
    cases fails
  | failed error stop =>
    have third : (TokenStream.ofSource Grammar.second ⟨unclosedText, none⟩).deliveries[2]? =
        some (.failure error) := by
      rw [TokenStream.deliveries, ending, List.getElem?_append_right (by simp [two])]
      simp [two]
    refine ⟨error, third, last words 2 _ third fun t eq => ?_⟩
    cases eq

end InstallScript
