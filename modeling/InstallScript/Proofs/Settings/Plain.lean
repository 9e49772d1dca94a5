import Mathlib.Data.List.Infix
import InstallScript.Ini.Read
import InstallScript.Proofs.Settings.Options
import InstallScript.Proofs.Syntax.Comment

/-!
What a settings file can hold. Not every text can be a header, a name or a value: a line has no
blanks around it, a name has no delimiter, a value does not end in an empty line, and no line of it
but the first looks like a comment. Plain settings have such texts only. What is written for them
is read back (`InstallScript.Proofs.Settings.Written`), and nothing else is ever read
(`InstallScript.Proofs.Settings.Read`).
-/

namespace InstallScript

/-! ## Blanks -/

namespace Text

theorem strip_append_blanks (cs : List Char) {after : List Char}
    (blank : ∀ c ∈ after, isBlank c = true) : strip (cs ++ after) = strip cs := by
  obtain ⟨before, after', split, blank', blank''⟩ := trim_split isBlank cs
  have whole : cs ++ after = before ++ (trim isBlank cs ++ (after' ++ after)) := by
    conv_lhs => rw [split]
    simp only [List.append_assoc]
  have both : ∀ c ∈ after' ++ after, isBlank c = true :=
    List.forall_mem_append.2 ⟨blank'', blank⟩
  rw [strip, whole, trim_of_trimmed blank' (trim_trimmed isBlank cs) both]
  rfl

/-- A line end behind a text does not count. -/
theorem strip_line (cs : List Char) : strip (cs ++ ['\n']) = strip cs :=
  strip_append_blanks cs (List.forall_mem_singleton.2 rfl)

theorem strip_blanks_append {before : List Char} (blank : ∀ c ∈ before, isBlank c = true)
    (cs : List Char) : strip (before ++ cs) = strip cs := by
  rw [strip, trim, List.dropWhile_append_of_pos blank]
  rfl

theorem trimmed_of_strip {cs : List Char} (same : strip cs = cs) : Trimmed isBlank cs := by
  have trimmed := trim_trimmed isBlank cs
  have same' : trim isBlank cs = cs := same
  rwa [same'] at trimmed

theorem strip_of_trimmed {cs : List Char} (trimmed : Trimmed isBlank cs) : strip cs = cs := by
  have stripped := @trim_of_trimmed isBlank [] cs [] nofun trimmed nofun
  rwa [List.append_nil] at stripped

theorem stripEnd_append_blanks (cs : List Char) {after : List Char}
    (blank : ∀ c ∈ after, isBlank c = true) : stripEnd (cs ++ after) = stripEnd cs := by
  rw [stripEnd, List.reverse_append,
    List.dropWhile_append_of_pos fun c member => blank c (List.mem_reverse.1 member)]
  rfl

theorem stripEnd_of_last {cs : List Char} (last : ∀ c, cs.getLast? = some c → isBlank c = false) :
    stripEnd cs = cs := by
  rw [stripEnd, dropWhile_of_head, List.reverse_reverse]
  intro c head
  exact last c (by rw [← List.head?_reverse]; exact head)

/-- A text whose first character is no blank is stripped at its end only. -/
theorem strip_of_head {cs : List Char} (head : ∀ c, cs.head? = some c → isBlank c = false) :
    strip cs = stripEnd cs := by
  rw [strip, trim, dropWhile_of_head head]
  rfl

end Text

/-! ## Plain texts -/

/-- A text that may stand on a line by itself: no blanks are around it, and it does not end a
line. -/
structure PlainText (cs : List Char) : Prop where
  trimmed : Text.strip cs = cs
  oneLine : '\n' ∉ cs
  noReturn : '\r' ∉ cs

/-- Whether a line is a comment. -/
def beginsComment : List Char → Bool
  | c :: _ => c = '#' || c = ';'
  | [] => false

/-- The name of an option. -/
structure PlainName (name : List Char) : Prop extends PlainText name where
  nonempty : name ≠ []
  noDelimiter : ∀ c ∈ name, isIniDelimiter c = false
  noComment : beginsComment name = false

/-- The lines of a value that go on after the first one. -/
structure PlainLines (lines : List (List Char)) : Prop where
  plain : ∀ line ∈ lines, PlainText line
  noComment : ∀ line ∈ lines, beginsComment line = false

/-- What is written on the first line of an option. -/
def optionLine (name first : List Char) : List Char := name ++ ' ' :: '=' :: ' ' :: first

/-- An option with its value. The last of several lines is not empty, and the first line does not
look like a header. -/
structure PlainOption (name value : String) : Prop where
  isName : PlainName name.toList
  lines : ∃ first rest, value.toList = ['\n'].intercalate (first :: rest) ∧ PlainText first ∧
    PlainLines rest ∧ rest.getLast? ≠ some [] ∧ iniHeader? (optionLine name.toList first) = none

/-- The header of a section besides the default one. -/
structure PlainHeader (header : String) : Prop where
  nonempty : header ≠ ""
  other : header ≠ defaultHeader
  oneLine : '\n' ∉ header.toList
  noReturn : '\r' ∉ header.toList

/-- Settings that a file can hold. -/
structure Ini.Plain (ini : Ini) : Prop where
  unique : ini.Unique
  headers : ∀ header ∈ ini.headers, PlainHeader header
  options : ∀ {header name value}, ini.get? header name = some value → PlainOption name value

theorem plainText_nil : PlainText [] := ⟨rfl, List.not_mem_nil, List.not_mem_nil⟩

/-- The first character of a plain text is no blank. -/
theorem PlainText.head {cs : List Char} (plain : PlainText cs) :
    ∀ c, cs.head? = some c → Text.isBlank c = false :=
  (Text.trimmed_of_strip plain.trimmed).head

theorem PlainText.last {cs : List Char} (plain : PlainText cs) :
    ∀ c, cs.getLast? = some c → Text.isBlank c = false :=
  (Text.trimmed_of_strip plain.trimmed).last

/-- What is left of a line without the blanks around it. -/
theorem plainText_strip {cs : List Char} (oneLine : '\n' ∉ cs) (noReturn : '\r' ∉ cs) :
    PlainText (Text.strip cs) :=
  ⟨Text.strip_strip cs, mt mem_strip oneLine, mt mem_strip noReturn⟩

/-! ## Headers -/

theorem iniHeader?_bracket (rest : List Char) : iniHeader? ('[' :: rest) =
    if ((rest.reverse.dropWhile (· ≠ ']')).drop 1).isEmpty then none
    else some (String.ofList ((rest.reverse.dropWhile (· ≠ ']')).drop 1).reverse) := rfl

/-- A line is a header if a bracket opens it and another one follows behind at least one
character. -/
theorem iniHeader?_eq_none_iff {cs : List Char} :
    iniHeader? cs = none ↔ ∀ c rest, cs = '[' :: c :: rest → ']' ∉ rest := by
  have absent (rest : List Char) :
      ((rest.reverse.dropWhile (· ≠ ']')).drop 1).isEmpty = true ↔
        ∀ c later, rest = c :: later → ']' ∉ later := by
    induction rest using List.reverseRecOn with
    | nil => simp
    | append_singleton init last ih =>
      rw [List.reverse_append, List.reverse_singleton, List.singleton_append]
      by_cases closes : last = ']'
      · subst closes
        rw [List.dropWhile_cons_of_neg (by simp)]
        cases init with
        | nil => simp
        | cons c init => simp
      · rw [List.dropWhile_cons_of_pos (by simpa using closes), ih]
        cases init with
        | nil => simp
        | cons c init => simp [Ne.symm closes]
  constructor
  · rintro none' c rest rfl
    rw [iniHeader?_bracket] at none'
    split at none'
    · rename_i empty
      exact (absent (c :: rest)).1 empty c rest rfl
    · cases none'
  · intro closed
    by_cases opens : ∃ rest, cs = '[' :: rest
    · obtain ⟨rest, rfl⟩ := opens
      rw [iniHeader?_bracket]
      exact if_pos ((absent rest).2 fun c later eq => closed c later (by rw [eq]))
    · unfold iniHeader?
      split
      · exact absurd ⟨_, rfl⟩ opens
      · rfl

/-- The beginning of a line that is no header is none. -/
theorem iniHeader?_of_append {cs ds : List Char} (noHeader : iniHeader? (cs ++ ds) = none) :
    iniHeader? cs = none := by
  refine iniHeader?_eq_none_iff.2 fun c rest eq member => ?_
  refine iniHeader?_eq_none_iff.1 noHeader c (rest ++ ds) ?_ (List.mem_append_left ds member)
  rw [eq, List.cons_append, List.cons_append]

theorem iniHeader?_eq_some {cs : List Char} {header : String}
    (found : iniHeader? cs = some header) :
    header ≠ "" ∧ ∀ c ∈ header.toList, c ∈ cs := by
  unfold iniHeader? at found
  split at found
  · rename_i rest
    dsimp only at found
    split at found
    · cases found
    · rename_i nonempty
      cases found
      refine ⟨fun empty => nonempty ?_, fun c member => ?_⟩
      · have chars := congrArg String.toList empty
        rw [String.toList_ofList] at chars
        simpa using chars
      · rw [String.toList_ofList] at member
        have member := List.mem_of_mem_drop (List.mem_reverse.1 member)
        have inRest := (List.dropWhile_suffix _).subset member
        exact List.mem_cons_of_mem _ (List.mem_reverse.1 inRest)
  · cases found

/-- The header between brackets is found. -/
theorem iniHeader?_written {header : String} (nonempty : header ≠ "") :
    iniHeader? ('[' :: (header.toList ++ [']'])) = some header := by
  have chars : header.toList ≠ [] := fun empty => nonempty (String.toList_inj.1 empty)
  rw [iniHeader?_bracket, List.reverse_append, List.reverse_singleton, List.singleton_append,
    List.dropWhile_cons_of_neg (by simp), List.drop_one, List.tail_cons, List.reverse_reverse,
    String.ofList_toList, if_neg]
  simpa using chars

/-! ## Lines of a value -/

theorem intercalate_append_line (first : List Char) (rest : List (List Char)) (line : List Char) :
    ['\n'].intercalate (first :: (rest ++ [line])) =
      ['\n'].intercalate (first :: rest) ++ '\n' :: line := by
  induction rest generalizing first with
  | nil => simp [List.intercalate_cons_cons]
  | cons next rest ih =>
    rw [List.cons_append, List.intercalate_cons_cons, ih, List.intercalate_cons_cons]
    simp only [List.append_assoc]

/-- Lines that do not end in an empty one do not end in blanks. -/
theorem stripEnd_lines_of_last {first : List Char} {rest : List (List Char)}
    (plain : PlainText first) (later : ∀ line ∈ rest, PlainText line)
    (last : rest.getLast? ≠ some []) :
    Text.stripEnd (['\n'].intercalate (first :: rest)) = ['\n'].intercalate (first :: rest) := by
  rcases List.eq_nil_or_concat' rest with rfl | ⟨init, line, rfl⟩
  · rw [List.intercalate_singleton]
    exact Text.stripEnd_of_last plain.last
  · cases line with
    | nil => exact absurd List.getLast?_concat last
    | cons c line =>
      refine Text.stripEnd_of_last fun d last => ?_
      refine (later (c :: line) (by simp)).last d ?_
      rw [← last, intercalate_append_line, List.getLast?_append, List.getLast?_cons_cons,
        List.getLast?_eq_some_getLast (List.cons_ne_nil c line)]
      rfl

/-- An empty line at the end does not count. -/
theorem stripEnd_append_empty (first : List Char) (rest : List (List Char)) :
    Text.stripEnd (['\n'].intercalate (first :: (rest ++ [[]]))) =
      Text.stripEnd (['\n'].intercalate (first :: rest)) := by
  rw [intercalate_append_line]
  exact Text.stripEnd_append_blanks _ (List.forall_mem_singleton.2 rfl)

/-- The text of lines that are read one after another. -/
theorem stripEnd_lines {first : List Char} {rest : List (List Char)} (plain : PlainText first)
    (later : ∀ line ∈ rest, PlainText line) : ∃ rest', rest' <+: rest ∧
      Text.stripEnd (['\n'].intercalate (first :: rest)) = ['\n'].intercalate (first :: rest') ∧
      rest'.getLast? ≠ some [] := by
  induction rest using List.reverseRecOn with
  | nil => exact ⟨[], List.prefix_rfl, stripEnd_lines_of_last plain nofun nofun, nofun⟩
  | append_singleton init line ih =>
    by_cases empty : line = []
    · subst empty
      obtain ⟨rest', isPrefix, eq, last⟩ :=
        ih fun line member => later line (List.mem_append_left _ member)
      refine ⟨rest', isPrefix.trans (List.prefix_append _ _), ?_, last⟩
      rw [stripEnd_append_empty, eq]
    · have last : (init ++ [line]).getLast? ≠ some [] := by simpa using empty
      exact ⟨init ++ [line], List.prefix_rfl, stripEnd_lines_of_last plain later last, last⟩

end InstallScript
