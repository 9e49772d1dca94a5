import InstallScript.Ini.Write
import InstallScript.Proofs.Settings.Encoding
import InstallScript.Proofs.Settings.Plain

/-!
Plain settings are read back from what is written for them (`Ini.ofText_text`). Reading goes line by
line, so each piece of the text leads from one reading to another whatever follows
(`IniReading.Reads`): a header opens a section, the lines of an option add it, and the empty line
behind a section adds a line to its last value that does not count in the end.
-/

namespace InstallScript

/-! ## Single lines -/

theorem Text.linesKeepingEnds_line {line : List Char} (oneLine : '\n' ∉ line)
    (read rest : List Char) : linesKeepingEnds read (line ++ '\n' :: rest) =
      (read.reverse ++ line ++ ['\n']) :: linesKeepingEnds [] rest := by
  induction line generalizing read with
  | nil =>
    rw [List.nil_append, linesKeepingEnds, if_pos rfl, List.reverse_cons, List.append_nil]
  | cons c line ih =>
    obtain ⟨other, oneLine⟩ := not_or.1 (mt List.mem_cons.2 oneLine)
    rw [List.cons_append, linesKeepingEnds, if_neg (Ne.symm other), ih oneLine, List.reverse_cons,
      List.append_assoc _ [c]]
    rfl

theorem Text.unifyLineEnds_of_no_return {cs : List Char} (noReturn : '\r' ∉ cs) :
    unifyLineEnds cs = cs := by
  induction cs with
  | nil => rfl
  | cons c cs ih =>
    obtain ⟨other, noReturn⟩ := not_or.1 (mt List.mem_cons.2 noReturn)
    rw [unifyLineEnds, if_neg (Ne.symm other), ih noReturn]
    rintro rest rfl
    exact absurd rfl other

namespace IniReading

section

variable {r : IniReading} {number : Nat} {line : List Char}

theorem readLine_empty_open {header option : String} (empty : Text.strip line = [])
    (opened : r.openOption? = some (header, option)) :
    r.readLine number line = .ok (r.continueValue header option "") := by
  unfold readLine
  rw [empty, opened]

theorem readLine_empty_closed (empty : Text.strip line = []) (closed : r.openOption? = none) :
    r.readLine number line = .ok r := by
  unfold readLine
  rw [empty, closed]

theorem readLine_continued {header option : String} {c : Char} {rest : List Char}
    (text : Text.strip line = c :: rest) (noComment : beginsComment (c :: rest) = false)
    (opened : r.openOption? = some (header, option))
    (indented : r.indent < (line.takeWhile Text.isBlank).length) : r.readLine number line =
      .ok (r.continueValue header option (String.ofList (c :: rest))) := by
  have noComment' : ¬ (c = '#' || c = ';') = true := Bool.not_eq_true _ ▸ noComment
  unfold readLine
  rw [text, opened]
  dsimp only
  rw [if_neg noComment', if_pos indented]

theorem readLine_item {c : Char} {rest : List Char} (text : Text.strip line = c :: rest)
    (noComment : beginsComment (c :: rest) = false)
    (unindented : (line.takeWhile Text.isBlank).length ≤ r.indent) : r.readLine number line =
      readItem { r with indent := (line.takeWhile Text.isBlank).length } number
        (String.ofList line) (c :: rest) := by
  have noComment' : ¬ (c = '#' || c = ';') = true := Bool.not_eq_true _ ▸ noComment
  unfold readLine
  rw [text]
  dsimp only
  rw [if_neg noComment']
  split
  · exact if_neg (Nat.not_lt_of_le unindented)
  · rfl

end

/-! ## Pieces of a text -/

/-- Reading a piece of a text leads from one reading to another, whatever follows. -/
def Reads (r : IniReading) (cs : List Char) (r' : IniReading) : Prop :=
  ∀ number rest, ∃ number', r.readLines number (Text.linesKeepingEnds [] (cs ++ rest)) =
    r'.readLines number' (Text.linesKeepingEnds [] rest)

theorem Reads.refl (r : IniReading) : r.Reads [] r := fun number _ => ⟨number, rfl⟩

theorem Reads.trans {r r' r'' : IniReading} {cs ds : List Char} (first : r.Reads cs r')
    (second : r'.Reads ds r'') : r.Reads (cs ++ ds) r'' := by
  intro number rest
  obtain ⟨number', eq⟩ := first number (ds ++ rest)
  obtain ⟨number'', eq'⟩ := second number' rest
  exact ⟨number'', by rw [List.append_assoc, eq, eq']⟩

theorem Reads.line {r r' : IniReading} (line : List Char) (oneLine : '\n' ∉ line)
    (reads : ∀ number, r.readLine number (line ++ ['\n']) = .ok r') :
    r.Reads (line ++ ['\n']) r' := by
  intro number rest
  refine ⟨number + 1, ?_⟩
  rw [List.append_assoc, List.singleton_append, Text.linesKeepingEnds_line oneLine,
    List.reverse_nil, List.nil_append, readLines, reads]

end IniReading

/-! ## Where a section goes -/

/-- Settings with a section behind the others, or with the default section. -/
def IniFile.place {α : Type} (ini : IniFile α) (header : String) (options : IniOptions α) :
    IniFile α :=
  if header = defaultHeader then { ini with defaults := options }
  else { ini with sections := ini.sections ++ [(header, options)] }

namespace IniFile

variable {α β : Type} {ini : IniFile α} {header : String}

theorem mapOptions_place (fresh : header ∉ ini.headers) (options : IniOptions α)
    (f : IniOptions α → IniOptions α) :
    (ini.place header options).mapOptions header f = ini.place header (f options) := by
  unfold place mapOptions
  split
  · rfl
  · have same : ∀ entry ∈ ini.sections,
        (if entry.1 = header then (entry.1, f entry.2) else (entry.1, entry.2)) = id entry := by
      rintro ⟨key, value⟩ member
      refine if_neg ?_
      rintro rfl
      exact fresh (List.mem_map_of_mem (f := (·.1)) member)
    have before := (List.map_congr_left same).trans (List.map_id ini.sections)
    dsimp only at before ⊢
    rw [List.map_append, before, List.map_singleton]
    dsimp only
    rw [if_pos rfl]

theorem get?_place (fresh : header ∉ ini.headers) (options : IniOptions α) (name : String) :
    (ini.place header options).get? header name = options.lookup name := by
  unfold get? options? place
  by_cases default : header = defaultHeader
  · rw [if_pos default, if_pos default]
    rfl
  · have absent : ini.sections.lookup header = none :=
      (@IniOptions.lookup_eq_none_iff _ ini.sections _).2 fresh
    rw [if_neg default, if_neg default, List.lookup_append, absent, Option.none_or,
      List.lookup_cons_self]
    rfl

end IniFile

namespace IniReading

variable {file : IniFile (List String)} {header : String} {option : Option String}

/-- A reading within a section. -/
def within (file : IniFile (List String)) (header : String)
    (options : IniOptions (List String)) (option : Option String) : IniReading :=
  ⟨file.place header options, some header, option, 0, []⟩

/-! ## Options -/

/-- A further line of a value. -/
theorem reads_continuation (fresh : header ∉ file.headers) {options : IniOptions (List String)}
    {name : String} (absent : name ∉ options.names) (named : name ≠ "") (value : List String)
    {line : List Char} (plain : PlainText line) (noComment : beginsComment line = false) :
    (within file header (options ++ [(name, value)]) (some name)).Reads ('\t' :: line ++ ['\n'])
      (within file header (options ++ [(name, String.ofList line :: value)]) (some name)) := by
  have opened : (within file header (options ++ [(name, value)]) (some name)).openOption? =
      some (header, name) := if_neg named
  have continues (text : String) :
      (within file header (options ++ [(name, value)]) (some name)).continueValue header name text =
        within file header (options ++ [(name, text :: value)]) (some name) := by
    unfold continueValue within
    dsimp only
    rw [IniFile.mapOptions_place fresh, IniOptions.adjust_append_last absent]
  have stripped : Text.strip ('\t' :: line ++ ['\n']) = line := by
    have blank : ∀ c ∈ ['\t'], Text.isBlank c = true := List.forall_mem_singleton.2 rfl
    rw [Text.strip_line, ← List.singleton_append, Text.strip_blanks_append blank, plain.trimmed]
  refine .line _ ?_ fun number => ?_
  · exact fun member => plain.oneLine ((List.mem_cons.1 member).resolve_left (by decide))
  cases line with
  | nil => rw [readLine_empty_open stripped opened, continues, String.ofList_nil]
  | cons c rest =>
    have indented : 0 < (('\t' :: (c :: rest) ++ ['\n']).takeWhile Text.isBlank).length := by
      rw [List.cons_append, List.takeWhile_cons_of_pos (by decide)]
      exact Nat.succ_pos _
    rw [readLine_continued stripped noComment opened indented, continues]

/-- The further lines of a value. -/
theorem reads_continuations (fresh : header ∉ file.headers) {options : IniOptions (List String)}
    {name : String} (absent : name ∉ options.names) (named : name ≠ "") (value : List String)
    {lines : List (List Char)} (plain : PlainLines lines) :
    (within file header (options ++ [(name, value)]) (some name)).Reads
      (lines.flatMap fun line => '\t' :: line ++ ['\n'])
      (within file header (options ++ [(name, (lines.map String.ofList).reverse ++ value)])
        (some name)) := by
  induction lines generalizing value with
  | nil => exact .refl _
  | cons line lines ih =>
    obtain ⟨plain, noComment⟩ := plain
    obtain ⟨first, later⟩ := List.forall_mem_cons.1 plain
    obtain ⟨noComment, noComments⟩ := List.forall_mem_cons.1 noComment
    have rest := ih (String.ofList line :: value) ⟨later, noComments⟩
    have values : ((line :: lines).map String.ofList).reverse ++ value =
        (lines.map String.ofList).reverse ++ String.ofList line :: value := by simp
    rw [List.flatMap_cons, values]
    exact (reads_continuation fresh absent named value first noComment).trans rest

/-- The first line of an option without the blanks around it: of an empty value the blank in front
of it goes, too. -/
theorem strip_optionLine {name first : List Char} (isName : PlainName name)
    (plain : PlainText first) : ∃ value blanks,
      Text.strip (optionLine name first) = name ++ ' ' :: '=' :: value ∧
        optionLine name first = (name ++ ' ' :: '=' :: value) ++ blanks ∧
          Text.strip value = first := by
  have blank : ∀ c ∈ [' '], Text.isBlank c = true := List.forall_mem_singleton.2 rfl
  have head : ∀ d, (optionLine name first).head? = some d → Text.isBlank d = false := by
    intro d head
    obtain ⟨c, cs, rfl⟩ := List.exists_cons_of_ne_nil isName.nonempty
    exact isName.head d head
  rw [Text.strip_of_head head]
  cases first with
  | nil =>
    have split : optionLine name [] = (name ++ [' ', '=']) ++ [' '] := by simp [optionLine]
    refine ⟨[], [' '], ?_, split, rfl⟩
    rw [split, Text.stripEnd_append_blanks _ blank, Text.stripEnd_of_last]
    intro c last
    rw [List.getLast?_append] at last
    cases last
    rfl
  | cons c first =>
    refine ⟨' ' :: c :: first, [], Text.stripEnd_of_last fun d last => ?_, ?_, ?_⟩
    · refine plain.last d ?_
      rw [← last, optionLine, List.getLast?_append, List.getLast?_cons_cons,
        List.getLast?_cons_cons, List.getLast?_cons_cons,
        List.getLast?_eq_some_getLast (List.cons_ne_nil c first)]
      rfl
    · rw [List.append_nil]
      rfl
    · rw [← List.singleton_append, Text.strip_blanks_append blank, plain.trimmed]

theorem iniOption?_written {name : List Char} (isName : PlainName name) (value : List Char) :
    iniOption? (name ++ ' ' :: '=' :: value) =
      some (String.ofList name, String.ofList (Text.strip value)) := by
  have passes : ∀ c ∈ name ++ [' '], (!isIniDelimiter c) = true := by
    refine List.forall_mem_append.2 ⟨fun c member => ?_, List.forall_mem_singleton.2 rfl⟩
    rw [isName.noDelimiter c member]
    rfl
  have split : name ++ ' ' :: '=' :: value = (name ++ [' ']) ++ '=' :: value := by simp
  have blank : ∀ c ∈ [' '], Text.isBlank c = true := List.forall_mem_singleton.2 rfl
  unfold iniOption?
  rw [split, List.dropWhile_append_of_pos passes, List.takeWhile_append_of_pos passes,
    List.dropWhile_cons_of_neg (by decide), List.takeWhile_cons_of_neg (by decide), List.append_nil]
  dsimp only
  rw [Text.stripEnd_append_blanks _ blank, Text.stripEnd_of_last isName.last]

/-- The first line of an option. -/
theorem reads_option_line (fresh : header ∉ file.headers) {options : IniOptions (List String)}
    {name : String} (absent : name ∉ options.names) (isName : PlainName name.toList)
    {first : List Char} (plain : PlainText first)
    (noHeader : iniHeader? (optionLine name.toList first) = none) :
    (within file header options option).Reads (optionLine name.toList first ++ ['\n'])
      (within file header (options ++ [(name, [String.ofList first])]) (some name)) := by
  obtain ⟨c, cs, chars⟩ := List.exists_cons_of_ne_nil isName.nonempty
  obtain ⟨value, blanks, stripped, split, text⟩ := strip_optionLine isName plain
  have text' : Text.strip (optionLine name.toList first ++ ['\n']) =
      c :: (cs ++ ' ' :: '=' :: value) := by
    rw [Text.strip_line, stripped, chars, List.cons_append]
  have noComment : beginsComment (c :: (cs ++ ' ' :: '=' :: value)) = false := by
    have noComment := isName.noComment
    rwa [chars] at noComment
  have unindented : ((optionLine name.toList first ++ ['\n']).takeWhile Text.isBlank).length = 0 := by
    have letter : ¬ Text.isBlank c = true := by
      rw [isName.head c (by rw [chars]; rfl)]
      exact Bool.false_ne_true
    rw [optionLine, chars, List.cons_append, List.cons_append, List.takeWhile_cons_of_neg letter]
    rfl
  have noHeader' : iniHeader? (c :: (cs ++ ' ' :: '=' :: value)) = none := by
    rw [split, chars] at noHeader
    exact iniHeader?_of_append noHeader
  have option' : iniOption? (c :: (cs ++ ' ' :: '=' :: value)) =
      some (name, String.ofList first) := by
    have written := iniOption?_written isName value
    rwa [chars, List.cons_append, ← chars, String.ofList_toList, text] at written
  have named : name ≠ "" := by
    rintro rfl
    exact isName.nonempty rfl
  have notGiven : (file.place header options).get? header name = none := by
    rw [IniFile.get?_place fresh, IniOptions.lookup_eq_none_iff]
    exact absent
  refine .line _ ?_ fun number => ?_
  · rw [optionLine, List.mem_append, List.mem_cons, List.mem_cons, List.mem_cons]
    rintro (member | other | other | other | member)
    · exact isName.oneLine member
    · cases other
    · cases other
    · cases other
    · exact plain.oneLine member
  · rw [readLine_item text' noComment unindented.le, unindented]
    unfold readItem readOption within
    rw [noHeader']
    dsimp only
    rw [option']
    dsimp only
    rw [notGiven, if_neg (by simp), if_neg named, IniFile.mapOptions_place fresh,
      IniOptions.set_of_absent absent]

/-- The lines of a value as they are written. -/
theorem writtenValue_lines {first : List Char} (plain : '\n' ∉ first) {rest : List (List Char)}
    (later : ∀ line ∈ rest, PlainText line) :
    (['\n'].intercalate (first :: rest)).flatMap (fun c => if c = '\n' then ['\n', '\t'] else [c]) ++
      ['\n'] = first ++ ['\n'] ++ rest.flatMap fun line => '\t' :: line ++ ['\n'] := by
  have kept {cs : List Char} (oneLine : '\n' ∉ cs) :
      cs.flatMap (fun c => if c = '\n' then ['\n', '\t'] else [c]) = cs := by
    have single : ∀ c ∈ cs, (if c = '\n' then ['\n', '\t'] else [c]) = [c] := fun c member =>
      if_neg (by rintro rfl; exact oneLine member)
    rw [List.flatMap_congr single, List.flatMap_singleton']
  induction rest generalizing first with
  | nil =>
    rw [List.intercalate_singleton, kept plain, List.flatMap_nil, List.append_nil]
  | cons line rest ih =>
    obtain ⟨second, later⟩ := List.forall_mem_cons.1 later
    have rest' := ih second.oneLine later
    rw [List.intercalate_cons_cons, List.flatMap_append, List.flatMap_append, kept plain,
      List.append_assoc, rest', List.flatMap_cons]
    simp

theorem writtenOption_lines (name : String) {value : String} {first : List Char}
    {rest : List (List Char)} (lines : value.toList = ['\n'].intercalate (first :: rest))
    (plain : '\n' ∉ first) (later : ∀ line ∈ rest, PlainText line) :
    (Ini.writtenOption name value).toList = (optionLine name.toList first ++ ['\n']) ++
      rest.flatMap fun line => '\t' :: line ++ ['\n'] := by
  have written : (Ini.writtenValue value).toList ++ "\n".toList =
      first ++ ['\n'] ++ rest.flatMap fun line => '\t' :: line ++ ['\n'] := by
    rw [Ini.writtenValue, String.toList_ofList, lines]
    exact writtenValue_lines plain later
  rw [Ini.writtenOption, String.toList_append, String.toList_append, String.toList_append,
    List.append_assoc _ _ "\n".toList, written]
  simp [optionLine]

/-- The value that its lines make up. -/
theorem joinedValue_lines (first : List Char) (rest : List (List Char)) :
    joinedValue ((rest.map String.ofList).reverse ++ [String.ofList first]) =
      String.ofList (Text.stripEnd (['\n'].intercalate (first :: rest))) := by
  have lines : ((rest.map String.ofList).reverse ++ [String.ofList first]).reverse.map String.toList =
      first :: rest := by
    rw [List.reverse_append, List.reverse_reverse, List.reverse_singleton, List.singleton_append,
      List.map_cons, List.map_map, String.toList_ofList]
    exact congrArg (first :: ·) (by simp [Function.comp_def])
  rw [joinedValue, String.toList_intercalate, lines]
  rfl

/-- An option adds its value. An empty line after it makes no difference. -/
theorem reads_option (option : Option String) (fresh : header ∉ file.headers)
    {options : IniOptions (List String)} {name value : String} (absent : name ∉ options.names)
    (plain : PlainOption name value) :
    ∃ lines, (within file header options option).Reads (Ini.writtenOption name value).toList
        (within file header (options ++ [(name, lines)]) (some name)) ∧
      joinedValue lines = value ∧ joinedValue ("" :: lines) = value := by
  obtain ⟨isName, first, rest, text, isFirst, later, last, noHeader⟩ := plain
  have named : name ≠ "" := by
    rintro rfl
    exact isName.nonempty rfl
  have joined : String.ofList (Text.stripEnd (['\n'].intercalate (first :: rest))) = value := by
    rw [stripEnd_lines_of_last isFirst later.plain last, ← text, String.ofList_toList]
  refine ⟨(rest.map String.ofList).reverse ++ [String.ofList first], ?_, ?_, ?_⟩
  · rw [writtenOption_lines name text isFirst.oneLine later.plain]
    exact (reads_option_line fresh absent isName isFirst noHeader).trans
      (reads_continuations fresh absent named [String.ofList first] later)
  · rw [joinedValue_lines, joined]
  · have more : "" :: ((rest.map String.ofList).reverse ++ [String.ofList first]) =
        ((rest ++ [[]]).map String.ofList).reverse ++ [String.ofList first] := by simp
    rw [more, joinedValue_lines, stripEnd_append_empty, joined]

theorem toList_options_cons (name value : String) (options : IniOptions String) :
    (String.join (((name, value) :: options).map fun (name, value) =>
      Ini.writtenOption name value)).toList = (Ini.writtenOption name value).toList ++
        (String.join (options.map fun (name, value) => Ini.writtenOption name value)).toList := by
  rw [List.map_cons, String.join_cons, String.toList_append]

/-- Options one after another. -/
theorem reads_options (option : Option String) (fresh : header ∉ file.headers)
    {options : IniOptions String} (once : options.names.Nodup)
    (plain : ∀ entry ∈ options, PlainOption entry.1 entry.2)
    (before : IniOptions (List String)) (apart : ∀ name ∈ options.names, name ∉ before.names) :
    ∃ values option', (within file header before option).Reads
        (String.join (options.map fun (name, value) => Ini.writtenOption name value)).toList
        (within file header (before ++ values) option') ∧
      (values.map fun (name, lines) => (name, joinedValue lines)) = options := by
  induction options generalizing before option with
  | nil =>
    refine ⟨[], option, ?_, rfl⟩
    rw [List.append_nil]
    exact .refl _
  | cons entry options ih =>
    obtain ⟨name, value⟩ := entry
    obtain ⟨first, later⟩ := List.forall_mem_cons.1 plain
    obtain ⟨absent, once⟩ := List.nodup_cons.1 once
    obtain ⟨fresh', apart⟩ := List.forall_mem_cons.1 apart
    obtain ⟨lines, reads, joined, -⟩ := reads_option option fresh fresh' first
    have apart' : ∀ other ∈ IniOptions.names options,
        other ∉ IniOptions.names (before ++ [(name, lines)]) := by
      intro other member
      rw [IniOptions.names, List.map_append, List.mem_append, List.map_singleton,
        List.mem_singleton]
      rintro (found | rfl)
      · exact apart other member found
      · exact absent member
    obtain ⟨values, option', reads', joined'⟩ := ih (some name) once later _ apart'
    refine ⟨(name, lines) :: values, option', ?_, ?_⟩
    · rw [toList_options_cons, List.append_cons]
      exact reads.trans reads'
    · rw [List.map_cons, joined']
      dsimp only
      rw [joined]

/-! ## Sections -/

/-- The empty line after a section adds a line to the value before it. -/
theorem reads_options_and_line (fresh : header ∉ file.headers) {options : IniOptions String}
    (once : options.names.Nodup) (plain : ∀ entry ∈ options, PlainOption entry.1 entry.2) :
    ∃ values option', (within file header [] none).Reads
        ((String.join (options.map fun (name, value) => Ini.writtenOption name value)).toList ++
          ['\n']) (within file header values option') ∧
      (values.map fun (name, lines) => (name, joinedValue lines)) = options := by
  rcases List.eq_nil_or_concat' options with rfl | ⟨init, ⟨name, value⟩, rfl⟩
  · refine ⟨[], none, ?_, rfl⟩
    exact .line [] List.not_mem_nil fun number => readLine_empty_closed rfl rfl
  · rw [IniOptions.names, List.map_append] at once
    obtain ⟨once, -, apart⟩ := List.nodup_append.1 once
    obtain ⟨values, option', reads, joined⟩ := reads_options none fresh once
      (fun entry member => plain entry (List.mem_append_left _ member))
      [] fun name _ => List.not_mem_nil
    have last := plain (name, value) (List.mem_append_right _ (List.mem_singleton_self _))
    have absent : name ∉ values.names := by
      intro member
      rw [← IniFile.names_mapValues values joinedValue, joined] at member
      exact apart name member name (List.mem_singleton_self _) rfl
    obtain ⟨lines, reads', -, joined'⟩ := reads_option option' fresh absent last
    have named : name ≠ "" := by
      rintro rfl
      exact last.isName.nonempty rfl
    refine ⟨values ++ [(name, "" :: lines)], some name, ?_, ?_⟩
    · have split : (String.join ((init ++ [(name, value)]).map fun (name, value) =>
          Ini.writtenOption name value)).toList =
          (String.join (init.map fun (name, value) => Ini.writtenOption name value)).toList ++
            (Ini.writtenOption name value).toList := by
        rw [List.map_append, String.join_append, String.toList_append, List.map_singleton,
          String.join_cons, String.join_nil, String.append_empty]
      rw [split]
      refine (reads.trans reads').trans ?_
      refine .line [] List.not_mem_nil fun number => ?_
      have opened : (within file header (values ++ [(name, lines)]) (some name)).openOption? =
          some (header, name) := if_neg named
      have empty : Text.strip ([] ++ ['\n']) = [] := rfl
      rw [readLine_empty_open empty opened]
      unfold continueValue within
      dsimp only
      rw [IniFile.mapOptions_place fresh, IniOptions.adjust_append_last absent]
    · rw [List.map_append, joined, List.map_singleton]
      dsimp only
      rw [joined']

theorem reads_header (fresh : header ∉ file.headers) (nonempty : header ≠ "")
    (oneLine : '\n' ∉ header.toList)
    (fits : header = defaultHeader → file.defaults = []) (before : Option String) :
    (⟨file, before, option, 0, []⟩ : IniReading).Reads (('[' :: header.toList ++ [']']) ++ ['\n'])
      (within file header [] none) := by
  have unread : ¬ (file.sections.lookup header).isSome = true := mt IniFile.lookup_isSome_iff.1 fresh
  have trimmed : Text.strip ('[' :: header.toList ++ [']']) = '[' :: header.toList ++ [']'] := by
    refine Text.strip_of_trimmed ⟨fun c head => ?_, fun c last => ?_⟩
    · cases head
      rfl
    · rw [List.getLast?_append] at last
      cases last
      rfl
  refine .line _ ?_ fun number => ?_
  · rw [List.mem_append, List.mem_cons, List.mem_singleton]
    rintro ((other | member) | other)
    · cases other
    · exact oneLine member
    · cases other
  · have unindented : ((('[' :: header.toList ++ [']']) ++ ['\n']).takeWhile
        Text.isBlank).length = 0 := rfl
    rw [readLine_item ((Text.strip_line _).trans trimmed) rfl unindented.le, unindented]
    have found : iniHeader? ('[' :: header.toList.append [']']) = some header :=
      iniHeader?_written nonempty
    unfold readItem
    rw [found]
    unfold readHeader within IniFile.place
    dsimp only
    rw [if_neg unread]
    split
    · rename_i default
      rw [← fits default]
    · rfl

/-- A section adds its options. -/
theorem reads_section (option : Option String) (fresh : header ∉ file.headers)
    (nonempty : header ≠ "") (oneLine : '\n' ∉ header.toList)
    (fits : header = defaultHeader → file.defaults = [])
    {options : IniOptions String} (once : options.names.Nodup)
    (plain : ∀ entry ∈ options, PlainOption entry.1 entry.2) (before : Option String) :
    ∃ values option', (⟨file, before, option, 0, []⟩ : IniReading).Reads
        (Ini.writtenSection header options).toList
        ⟨file.place header values, some header, option', 0, []⟩ ∧
      (values.map fun (name, lines) => (name, joinedValue lines)) = options := by
  obtain ⟨values, option', reads, joined⟩ := reads_options_and_line fresh once plain
  refine ⟨values, option', ?_, joined⟩
  have text : (Ini.writtenSection header options).toList =
      (('[' :: header.toList ++ [']']) ++ ['\n']) ++
        ((String.join (options.map fun (name, value) => Ini.writtenOption name value)).toList ++
          ['\n']) := by
    simp [Ini.writtenSection]
  rw [text]
  exact (reads_header fresh nonempty oneLine fits before).trans reads

/-- Sections one after another. -/
theorem reads_sections (file : IniFile (List String)) (option : Option String)
    {sections : List (String × IniOptions String)}
    (once : (sections.map (·.1)).Nodup) (headers : ∀ entry ∈ sections, PlainHeader entry.1)
    (apart : ∀ entry ∈ sections, entry.1 ∉ file.headers)
    (names : ∀ entry ∈ sections, entry.2.names.Nodup)
    (options : ∀ entry ∈ sections, ∀ item ∈ entry.2, PlainOption item.1 item.2)
    (before : Option String) :
    ∃ read before' option', (⟨file, before, option, 0, []⟩ : IniReading).Reads
        (String.join (sections.map fun (header, options) =>
          Ini.writtenSection header options)).toList
        ⟨{ file with sections := file.sections ++ read }, before', option', 0, []⟩ ∧
      (read.map fun (header, options) =>
        (header, options.map fun (name, lines) => (name, joinedValue lines))) = sections := by
  induction sections generalizing file option before with
  | nil =>
    refine ⟨[], before, option, ?_, rfl⟩
    rw [List.append_nil]
    exact .refl _
  | cons entry sections ih =>
    obtain ⟨header, items⟩ := entry
    obtain ⟨absent, once⟩ := List.nodup_cons.1 once
    obtain ⟨isHeader, headers⟩ := List.forall_mem_cons.1 headers
    obtain ⟨fresh, apart⟩ := List.forall_mem_cons.1 apart
    obtain ⟨once', names⟩ := List.forall_mem_cons.1 names
    obtain ⟨plain, options⟩ := List.forall_mem_cons.1 options
    obtain ⟨values, option', reads, joined⟩ := reads_section option fresh
      isHeader.nonempty isHeader.oneLine (fun default => absurd default isHeader.other) once' plain
      before
    have placed : file.place header values =
        { file with sections := file.sections ++ [(header, values)] } := if_neg isHeader.other
    have apart' : ∀ entry ∈ sections, entry.1 ∉ (file.place header values).headers := by
      intro entry member
      rw [placed, IniFile.headers, List.map_append, List.mem_append, List.map_singleton,
        List.mem_singleton]
      rintro (found | same)
      · exact apart entry member found
      · exact absent (List.mem_map.2 ⟨entry, member, same⟩)
    obtain ⟨read, before', option'', reads', joined'⟩ :=
      ih (file.place header values) option' once headers apart' names options (some header)
    refine ⟨(header, values) :: read, before', option'', ?_, ?_⟩
    · rw [List.map_cons, String.join_cons, String.toList_append, List.append_cons]
      rw [placed] at reads reads'
      exact reads.trans reads'
    · rw [List.map_cons, joined']
      dsimp only
      rw [joined]

end IniReading

/-! ## Settings files -/

theorem no_return_intercalate {lines : List (List Char)} (noReturn : ∀ line ∈ lines, '\r' ∉ line) :
    '\r' ∉ ['\n'].intercalate lines := by
  induction lines with
  | nil => exact List.not_mem_nil
  | cons line lines ih =>
    obtain ⟨first, later⟩ := List.forall_mem_cons.1 noReturn
    cases lines with
    | nil => rwa [List.intercalate_singleton]
    | cons next lines =>
      rw [List.intercalate_cons_cons, List.mem_append, List.mem_append, List.mem_singleton]
      rintro ((member | other) | member)
      · exact first member
      · cases other
      · exact ih later member

theorem PlainOption.noReturn {name value : String} (plain : PlainOption name value) :
    '\r' ∉ value.toList := by
  obtain ⟨-, first, rest, text, isFirst, later, -, -⟩ := plain
  rw [text]
  exact no_return_intercalate (List.forall_mem_cons.2
    ⟨isFirst.noReturn, fun line member => (later.plain line member).noReturn⟩)

namespace Ini

theorem no_return_option {name value : String} (plain : PlainOption name value) :
    '\r' ∉ (writtenOption name value).toList := by
  have written : '\r' ∉ (writtenValue value).toList := by
    rw [writtenValue, String.toList_ofList, List.mem_flatMap]
    rintro ⟨c, member, inside⟩
    split at inside
    · simp at inside
    · rw [← List.mem_singleton.1 inside] at member
      exact plain.noReturn member
  simp [writtenOption, written, plain.isName.noReturn]

theorem no_return_section {header : String} (noReturn : '\r' ∉ header.toList)
    {options : IniOptions String} (plain : ∀ entry ∈ options, PlainOption entry.1 entry.2) :
    '\r' ∉ (writtenSection header options).toList := by
  have written : '\r' ∉ (String.join (options.map fun (name, value) =>
      writtenOption name value)).toList := by
    rw [String.toList_join, List.mem_flatMap]
    rintro ⟨text, member, inside⟩
    obtain ⟨entry, given, rfl⟩ := List.mem_map.1 member
    exact no_return_option (plain entry given) inside
  simp only [writtenSection, String.toList_append, List.mem_append]
  rintro ((((other | member) | other) | member) | other)
  · cases (List.mem_singleton.1 other)
  · exact noReturn member
  · simp at other
  · exact written member
  · cases (List.mem_singleton.1 other)

theorem Plain.of_mem {ini : Ini} (plain : ini.Plain) {header : String} {options : IniOptions String}
    (found : ini.options? header = some options) : ∀ entry ∈ options, PlainOption entry.1 entry.2 :=
  fun _ member => plain.options (plain.unique.get?_of_mem found member)

/-- What is written for plain settings has no carriage returns. -/
theorem Plain.no_return {ini : Ini} (plain : ini.Plain) : '\r' ∉ ini.text.toList := by
  have sections : '\r' ∉ (String.join (ini.sections.map fun (header, options) =>
      writtenSection header options)).toList := by
    rw [String.toList_join, List.mem_flatMap]
    rintro ⟨text, member, inside⟩
    obtain ⟨entry, given, rfl⟩ := List.mem_map.1 member
    exact no_return_section (plain.headers entry.1 (List.mem_map_of_mem given)).noReturn
      (plain.of_mem (plain.unique.options?_of_mem given)) inside
  have noReturn : '\r' ∉ defaultHeader.toList := by decide
  have defaults := no_return_section noReturn
    (plain.of_mem ini.options?_default)
  rw [text, String.toList_append, List.mem_append]
  refine not_or.2 ⟨?_, sections⟩
  split
  · exact List.not_mem_nil
  · exact defaults

/-- The default section comes first if it has options. -/
theorem reads_defaults {options : IniOptions String} (once : options.names.Nodup)
    (plain : ∀ entry ∈ options, PlainOption entry.1 entry.2) :
    ∃ (values : IniOptions (List String)) (header option : Option String),
      ({} : IniReading).Reads
        (if options.isEmpty then "" else writtenSection defaultHeader options).toList
        ⟨{ defaults := values, sections := [] }, header, option, 0, []⟩ ∧
      (values.map fun (name, lines) => (name, IniReading.joinedValue lines)) = options := by
  split
  · rename_i empty
    rw [List.isEmpty_iff.1 empty]
    exact ⟨[], none, none, .refl _, rfl⟩
  · have fresh : defaultHeader ∉ ({} : IniFile (List String)).headers := List.not_mem_nil
    obtain ⟨values, option, reads, joined⟩ := IniReading.reads_section none fresh (by decide)
      (by decide) (fun _ => rfl) once plain none
    exact ⟨values, some defaultHeader, option, reads, joined⟩

/-- What is written for plain settings reads back as them. -/
theorem ofText_text {ini : Ini} (plain : ini.Plain) : ofText ini.text.toList = .ok ini := by
  obtain ⟨defaults, header, option, first, joined⟩ :=
    reads_defaults plain.unique.defaults (plain.of_mem ini.options?_default)
  obtain ⟨read, header', option', later, joined'⟩ := IniReading.reads_sections
    { defaults, sections := [] } option plain.unique.headers
    (fun entry member => plain.headers entry.1 (List.mem_map_of_mem member))
    (fun _ _ => List.not_mem_nil) plain.unique.options
    (fun entry member => plain.of_mem (plain.unique.options?_of_mem member)) header
  have reads := first.trans later
  rw [← String.toList_append] at reads
  obtain ⟨number, eq⟩ := reads 1 []
  have lines : readLines (linesOf ini.text.toList) =
      .ok ⟨{ defaults, sections := read }, header', option', 0, []⟩ := by
    rw [readLines, linesOf, Text.unifyLineEnds_of_no_return plain.no_return]
    rwa [List.append_nil] at eq
  have values : (⟨defaults, read⟩ : IniFile (List String)).mapValues IniReading.joinedValue = ini := by
    rw [IniFile.mapValues, joined, joined']
  rw [ofText, lines]
  dsimp only
  rw [List.isEmpty_nil, if_pos rfl, values]

/-- The bytes that are written for plain settings read back as them. -/
theorem ofBytes_text {ini : Ini} (plain : ini.Plain) :
    ofBytes (Text.encodeUtf8 ini.text) = .ok ini := by
  rw [ofBytes, Text.decodeArriving_encodeUtf8]
  exact ofText_text plain

end Ini

end InstallScript
