import InstallScript.Proofs.Syntax.Tiling

/-!
Lines as places count them and lines as readers see them. Places count line feeds only, and the
lines that are shown end at any break. Where line feeds are the only breaks in front of a place,
with a carriage return before them or not, both agree: the line with the number of the place goes
on, from the column of the place, with what comes behind it (`Source.line_of_place`). So much may be
said of the lines that diagnostics show (`Source.Shows`).
-/

namespace InstallScript

/-- A place is reached over the text in front of it. -/
theorem Location.Counts.reached {text : List Char} {l : Location} (place : l.Counts text) :
    l = ({} : Location).after (text.take l.offset) := by
  obtain ⟨inside, line, column⟩ := place
  obtain ⟨line', column'⟩ := Location.after_start (text.take l.offset)
  have offset' : (({} : Location).after (text.take l.offset)).offset = l.offset := by
    simpa using inside
  generalize ({} : Location).after (text.take l.offset) = reached at *
  rcases l with ⟨_, _, _⟩
  rcases reached with ⟨_, _, _⟩
  dsimp only at *
  rw [line, column, ← line', ← column', offset']

namespace Text

/-- A text whose breaks are line feeds, each of them alone or behind a carriage return. -/
inductive FeedsOnly : List Char → Prop
  | nil : FeedsOnly []
  | feed {rest : List Char} (more : FeedsOnly rest) : FeedsOnly ('\n' :: rest)
  | pair {rest : List Char} (more : FeedsOnly rest) : FeedsOnly ('\r' :: '\n' :: rest)
  | other {c : Char} {rest : List Char} (inside : isLineBreak c = false)
    (more : FeedsOnly rest) : FeedsOnly (c :: rest)

theorem ne_of_not_break {c d : Char} (inside : isLineBreak c = false)
    (breaks : isLineBreak d = true) : c ≠ d := by
  rintro rfl
  rw [inside] at breaks
  cases breaks

theorem linesAfter_inside {c : Char} (inside : isLineBreak c = false) (read rest : List Char) :
    linesAfter read (c :: rest) = linesAfter (c :: read) rest := by
  have notReturn : c ≠ '\r' := ne_of_not_break inside (by decide)
  rw [linesAfter.eq_3 _ _ _ fun _ isReturn => absurd isReturn notReturn, inside]
  rfl

/-- A break ends the line, whatever it is. -/
theorem linesAfter_break {c : Char} (breaks : isLineBreak c = true) (read rest : List Char) :
    ∃ others, linesAfter read (c :: rest) = read.reverse :: others := by
  unfold linesAfter
  split
  · rename_i eq
    cases eq
  · exact ⟨_, rfl⟩
  · rename_i other eq
    cases eq
    exact ⟨_, if_pos breaks⟩

/-- The line in progress goes on up to the next break. -/
theorem head_linesAfter {read rest line : List Char}
    (first : (linesAfter read rest).head? = some line) :
    line = read.reverse ++ rest.takeWhile fun c => !isLineBreak c := by
  induction rest generalizing read with
  | nil =>
    unfold linesAfter at first
    split at first
    · cases first
    · cases first
      simp
  | cons c rest ih =>
    cases breaks : isLineBreak c with
    | true =>
      obtain ⟨others, eq⟩ := linesAfter_break breaks read rest
      rw [eq] at first
      cases first
      simp [breaks]
    | false =>
      rw [linesAfter_inside breaks] at first
      simpa [breaks] using ih first

/-- Behind a text without other breaks than line feeds, as many lines are over as its places count,
and of the next one as much is read as its columns count. -/
theorem linesAfter_feeds {before : List Char} (feeds : FeedsOnly before) (rest : List Char)
    {read : List Char} {l : Location} (column : l.column = read.length + 1) :
    ∃ past read', (l.after before).line = l.line + past.length ∧
      (l.after before).column = read'.length + 1 ∧
      linesAfter read (before ++ rest) = past ++ linesAfter read' rest := by
  induction feeds generalizing read l with
  | nil => exact ⟨[], read, rfl, column, rfl⟩
  | feed _ ih =>
    obtain ⟨past, read', line, column', eq⟩ := @ih [] (l.next '\n') rfl
    refine ⟨read.reverse :: past, read', ?_, column', ?_⟩
    · rw [Location.after_cons, line, List.length_cons, Nat.add_comm past.length, ← Nat.add_assoc]
      rfl
    · rw [List.cons_append, List.cons_append, ← eq]
      rfl
  | pair _ ih =>
    obtain ⟨past, read', line, column', eq⟩ := @ih [] ((l.next '\r').next '\n') rfl
    refine ⟨read.reverse :: past, read', ?_, column', ?_⟩
    · rw [Location.after_cons, Location.after_cons, line, List.length_cons,
        Nat.add_comm past.length, ← Nat.add_assoc]
      rfl
    · rw [List.cons_append, List.cons_append, List.cons_append, ← eq]
      rfl
  | @other c _ inside _ ih =>
    have notFeed : c ≠ '\n' := ne_of_not_break inside (by decide)
    have next : l.next c = ⟨l.line, l.column + 1, l.offset + 1⟩ := if_neg notFeed
    obtain ⟨past, read', line, column', eq⟩ := @ih (c :: read) (l.next c) <| by
      rw [next, List.length_cons, column]
    refine ⟨past, read', ?_, column', ?_⟩
    · rw [Location.after_cons, line, next]
    · rw [List.cons_append, linesAfter_inside inside, eq]

end Text

/-- Where line feeds are the only breaks in front of a place, the line with its number goes on at
its column with what comes behind the place. -/
theorem Source.line_of_place {source : Source} {l : Location} (place : l.Counts source.text)
    (feeds : Text.FeedsOnly (source.text.take l.offset)) {line : String}
    (shown : Text.line? source.lines l.line = some line) :
    line.toList.drop (l.column - 1) =
      (source.text.drop l.offset).takeWhile fun c => !Text.isLineBreak c := by
  have start : ({} : Location).column = ([] : List Char).length + 1 := rfl
  obtain ⟨past, read, lines, column, eq⟩ :=
    Text.linesAfter_feeds feeds (source.text.drop l.offset) start
  rw [← place.reached] at lines column
  rw [List.take_append_drop] at eq
  have number : l.line = 1 + past.length := lines
  have nonzero : l.line ≠ 0 := by omega
  rw [Text.line?, if_neg nonzero, number, Nat.add_sub_cancel_left, Source.lines, eq,
    List.getElem?_map, List.getElem?_append_right le_rfl, Nat.sub_self, ← List.head?_eq_getElem?,
    Option.map_eq_some_iff] at shown
  obtain ⟨chars, first, rfl⟩ := shown
  rw [Text.head_linesAfter first, String.toList_ofList, column, Nat.add_sub_cancel,
    ← List.length_reverse, List.drop_left]

/-! ## What diagnostics show -/

/-- A line that is shown for a stretch of a text: the one with the number of the place where the
stretch begins. Where line feeds are the only breaks in front of it, the line goes on from there
with the characters of the text, up to the next break. -/
structure Source.ShowsLine (source : Source) (span : Span) (line : String) : Prop where
  place : span.start.Counts source.text
  numbered : Text.line? source.lines span.start.line = some line
  rest : Text.FeedsOnly (source.text.take span.start.offset) →
    line.toList.drop (span.start.column - 1) =
      (source.text.drop span.start.offset).takeWhile fun c => !Text.isLineBreak c

/-- A diagnostic shows the line of the stretch that it is about. Where the input ends unexpectedly
no line is shown. -/
structure Source.Shows (source : Source) (d : Diagnostic) : Prop where
  lookedUp : d.sourceLine = sourceLine? source.lines d.span ∨ d.code = "E102" ∧ d.sourceLine = none
  line : ∀ span line, d.span = some span → d.sourceLine = some line → source.ShowsLine span line

namespace Source

variable {source : Source}

/-- Where the line is looked up by the stretch, it is the right one if the stretch begins in the
text. -/
theorem shows_of_placed {d : Diagnostic}
    (placed : ∀ span, d.span = some span → span.start.Counts source.text)
    (lookedUp : d.sourceLine = sourceLine? source.lines d.span ∨
      d.code = "E102" ∧ d.sourceLine = none) : source.Shows d := by
  refine ⟨lookedUp, fun span line about shown => ?_⟩
  rcases lookedUp with lookedUp | ⟨-, none⟩
  · rw [lookedUp, about] at shown
    have place := placed span about
    exact ⟨place, shown, fun feeds => line_of_place place feeds shown⟩
  · cases none.symm.trans shown

theorem shows_withLine (fault : Fault) {span : Span} (place : span.start.Counts source.text) :
    source.Shows (ScriptError.withLine ⟨fault, some span, none⟩ source.lines).diagnostic := by
  refine shows_of_placed ?_ (.inl rfl)
  rintro _ ⟨⟩
  exact place

end Source

end InstallScript
