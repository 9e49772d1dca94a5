import InstallScript.Proofs.Settings.Plain

/-!
Whatever a text holds, what is read from it is plain (`Ini.plain_of_ofText`). The reason is an
invariant of reading: as long as no line is refused, the headers, names and lines at hand are plain
(`IniReading.Sound`). Values get lines in the order of the text, and lose empty ones at their end
when everything has been read.
-/

namespace InstallScript

/-! ## Lines -/

theorem Text.no_return_unifyLineEnds (cs : List Char) : '\r' ∉ unifyLineEnds cs := by
  fun_induction unifyLineEnds cs with
  | case1 => exact List.not_mem_nil
  | case2 rest ih =>
    rw [List.mem_cons]
    exact not_or.2 ⟨by decide, ih⟩
  | case3 c rest _ ih =>
    rw [List.mem_cons]
    refine not_or.2 ⟨?_, ih⟩
    split
    · decide
    · rename_i other
      exact Ne.symm other

/-- The lines of a text are plain without the blanks around them. -/
theorem Text.plain_linesKeepingEnds {read cs line : List Char} (oneLine : '\n' ∉ read)
    (noReturn : '\r' ∉ read) (noReturns : '\r' ∉ cs) (member : line ∈ linesKeepingEnds read cs) :
    PlainText (strip line) := by
  have plain : PlainText (strip read.reverse) :=
    plainText_strip (mt List.mem_reverse.1 oneLine) (mt List.mem_reverse.1 noReturn)
  fun_induction linesKeepingEnds read cs with
  | case1 => cases member
  | case2 read =>
    rw [List.mem_singleton.1 member]
    exact plain
  | case3 read rest ih =>
    rcases List.mem_cons.1 member with rfl | later
    · rw [List.reverse_cons, strip_line]
      exact plain
    · exact ih List.not_mem_nil List.not_mem_nil (mt (List.mem_cons_of_mem _) noReturns) later
        plainText_nil
  | case4 read c rest other ih =>
    obtain ⟨other', noReturns⟩ := not_or.1 (mt List.mem_cons.2 noReturns)
    have oneLine : '\n' ∉ c :: read := fun member =>
      (List.mem_cons.1 member).elim (fun eq => other eq.symm) oneLine
    have noReturn : '\r' ∉ c :: read := fun member =>
      (List.mem_cons.1 member).elim other' noReturn
    exact ih oneLine noReturn noReturns member
      (plainText_strip (mt List.mem_reverse.1 oneLine) (mt List.mem_reverse.1 noReturn))

theorem Ini.plain_linesOf {cs line : List Char} (member : line ∈ linesOf cs) :
    PlainText (Text.strip line) :=
  Text.plain_linesKeepingEnds List.not_mem_nil List.not_mem_nil (Text.no_return_unifyLineEnds cs)
    member

/-! ## Options -/

/-- An option with the lines of its value, the last one first, before empty lines at the end of it
are gone. -/
structure SoundOption (name : String) (lines : List String) : Prop where
  isName : PlainName name.toList
  lines : ∃ first rest, lines.reverse.map String.toList = first :: rest ∧ PlainText first ∧
    PlainLines rest ∧ iniHeader? (optionLine name.toList first) = none

theorem SoundOption.continued {name : String} {lines : List String} (sound : SoundOption name lines)
    {line : List Char} (plain : PlainText line) (noComment : beginsComment line = false) :
    SoundOption name (String.ofList line :: lines) := by
  obtain ⟨isName, first, rest, eq, isFirst, later, noHeader⟩ := sound
  refine ⟨isName, first, rest ++ [line], ?_, isFirst, ⟨?_, ?_⟩, noHeader⟩
  · rw [List.reverse_cons, List.map_append, eq, List.map_singleton, String.toList_ofList]
    rfl
  · exact List.forall_mem_append.2 ⟨later.plain, List.forall_mem_singleton.2 plain⟩
  · exact List.forall_mem_append.2 ⟨later.noComment, List.forall_mem_singleton.2 noComment⟩

/-- The value that an option has in the end. -/
theorem SoundOption.plain {name : String} {lines : List String} (sound : SoundOption name lines) :
    PlainOption name (IniReading.joinedValue lines) := by
  obtain ⟨isName, first, rest, eq, isFirst, later, noHeader⟩ := sound
  obtain ⟨rest', isPrefix, stripped, last⟩ := stripEnd_lines isFirst later.plain
  refine ⟨isName, first, rest', ?_, isFirst, ⟨?_, ?_⟩, last, noHeader⟩
  · rw [IniReading.joinedValue, String.toList_ofList, String.toList_intercalate, eq]
    exact stripped
  · exact fun line member => later.plain line (isPrefix.subset member)
  · exact fun line member => later.noComment line (isPrefix.subset member)

/-- A line with an option is no header in the form in which it is written, either. -/
theorem iniHeader?_optionLine {name first : List Char} (middle value : List Char)
    (nonempty : name ≠ []) (noHeader : iniHeader? (name ++ (middle ++ value)) = none)
    (between : middle ≠ []) (inside : ∀ c ∈ first, c ∈ value) :
    iniHeader? (optionLine name first) = none := by
  obtain ⟨c, name, rfl⟩ := List.exists_cons_of_ne_nil nonempty
  obtain ⟨m, middle, rfl⟩ := List.exists_cons_of_ne_nil between
  refine iniHeader?_eq_none_iff.2 fun d rest eq member => ?_
  rw [optionLine, List.cons_append] at eq
  obtain ⟨rfl, text⟩ := List.cons.inj eq
  have closed := iniHeader?_eq_none_iff.1 noHeader
  cases name with
  | nil =>
    obtain ⟨-, rfl⟩ := List.cons.inj text
    have member : ']' ∈ first := by simpa using member
    exact closed m (middle ++ value) rfl (List.mem_append_right _ (inside _ member))
  | cons e name =>
    obtain ⟨-, rfl⟩ := List.cons.inj text
    refine closed e (name ++ ((m :: middle) ++ value)) rfl ?_
    rcases List.mem_append.1 member with inName | inFirst
    · exact List.mem_append_left _ inName
    · have member : ']' ∈ first := by simpa using inFirst
      exact List.mem_append_right _ (List.mem_append_right _ (inside _ member))

/-- The option on a line, with the delimiter between its name and its value. -/
theorem iniOption?_eq_some {cs : List Char} {name value : String}
    (found : iniOption? cs = some (name, value)) : ∃ before delimiter after,
      cs = before ++ delimiter :: after ∧ (∀ c ∈ before, isIniDelimiter c = false) ∧
        name.toList = Text.stripEnd before ∧ value.toList = Text.strip after := by
  unfold iniOption? at found
  split at found
  · cases found
  · rename_i delimiter after rest
    cases found
    refine ⟨cs.takeWhile fun c => !isIniDelimiter c, delimiter, after, ?_, fun c member => ?_,
      String.toList_ofList, String.toList_ofList⟩
    · rw [← rest, List.takeWhile_append_dropWhile]
    · simpa using List.all_eq_true.1 List.all_takeWhile c member

theorem Text.stripEnd_split (cs : List Char) : ∃ blanks, cs = stripEnd cs ++ blanks := by
  refine ⟨(cs.reverse.takeWhile isBlank).reverse, ?_⟩
  rw [stripEnd, ← List.reverse_append, List.takeWhile_append_dropWhile, List.reverse_reverse]

/-- The option on a line that is no comment and no header. -/
theorem soundOption_of_iniOption? {cs : List Char} (plain : PlainText cs)
    (noComment : beginsComment cs = false) (noHeader : iniHeader? cs = none) {name value : String}
    (found : iniOption? cs = some (name, value)) (named : name ≠ "") : SoundOption name [value] := by
  obtain ⟨before, delimiter, after, rfl, noDelimiter, name', value'⟩ := iniOption?_eq_some found
  obtain ⟨blanks, split⟩ := Text.stripEnd_split before
  have nonempty : name.toList ≠ [] := fun empty => named (String.toList_inj.1 empty)
  obtain ⟨c, chars, eq⟩ := List.exists_cons_of_ne_nil nonempty
  rw [← name'] at split
  have begins : before = c :: (chars ++ blanks) := by rw [split, eq, List.cons_append]
  have stripped : Text.strip before = name.toList := by
    rw [name', Text.strip_of_head]
    intro d head
    refine plain.head d ?_
    rw [begins] at head ⊢
    exact head
  have absent {d : Char} (member : d ∉ before ++ delimiter :: after) : d ∉ before ∧ d ∉ after :=
    ⟨fun inside => member (List.mem_append_left _ inside),
      fun inside => member (List.mem_append_right _ (List.mem_cons_of_mem _ inside))⟩
  have plainName := plainText_strip (absent plain.oneLine).1 (absent plain.noReturn).1
  have plainValue := plainText_strip (absent plain.oneLine).2 (absent plain.noReturn).2
  rw [stripped] at plainName
  rw [← value'] at plainValue
  refine ⟨⟨plainName, nonempty, fun d member => ?_, ?_⟩, value.toList, [], rfl, plainValue,
    ⟨nofun, nofun⟩, ?_⟩
  · refine noDelimiter d ?_
    rw [split]
    exact List.mem_append_left _ member
  · rw [begins] at noComment
    rw [eq]
    exact noComment
  · refine iniHeader?_optionLine (blanks ++ [delimiter]) after nonempty ?_
      (by simp) fun d member => ?_
    · rw [split] at noHeader
      simpa using noHeader
    · rw [value'] at member
      exact mem_strip member

/-! ## Reading -/

theorem IniFile.get?_mapOptions {α : Type} (ini : IniFile α) (header : String)
    (f : IniOptions α → IniOptions α) (other name : String) :
    (ini.mapOptions header f).get? other name = (ini.options? other).bind fun options =>
      (if other = header then f options else options).lookup name := by
  rw [get?, options?_mapOptions, Option.bind_map]
  rfl

namespace IniReading

/-- What is at hand while no line has been refused. -/
structure Sound (file : IniFile (List String)) : Prop where
  unique : file.Unique
  headers : ∀ header ∈ file.headers, PlainHeader header
  options : ∀ {header name lines}, file.get? header name = some lines → SoundOption name lines

theorem sound_empty : Sound {} := by
  refine ⟨IniFile.unique_empty, nofun, fun {header name lines} given => ?_⟩
  obtain ⟨options, found, member⟩ := IniFile.get?_eq_some given
  unfold IniFile.options? at found
  split at found
  · cases found
    cases member
  · cases found

variable {file : IniFile (List String)}

/-- A line that goes on with a value. -/
theorem Sound.continued (sound : Sound file) (header option : String) {line : List Char}
    (plain : PlainText line) (noComment : beginsComment line = false) :
    Sound (file.mapOptions header fun options =>
      options.adjust option (String.ofList line :: ·)) := by
  refine ⟨sound.unique.mapOptions fun options found => ?_, ?_, fun {other name lines} given => ?_⟩
  · rw [IniOptions.names_adjust]
    exact sound.unique.nodup_options? found
  · rw [IniFile.headers_mapOptions]
    exact sound.headers
  · rw [IniFile.get?_mapOptions] at given
    obtain ⟨options, found, given⟩ := Option.bind_eq_some_iff.1 given
    have before {lines : List String} (member : (name, lines) ∈ options) :
        SoundOption name lines := sound.options (sound.unique.get?_of_mem found member)
    have member := IniOptions.mem_of_lookup given
    split at member
    · obtain ⟨⟨key, value⟩, held, eq⟩ := List.mem_map.1 member
      dsimp only at eq
      split at eq
      · cases eq
        exact (before held).continued plain noComment
      · cases eq
        exact before held
    · exact before member

/-- A new section. -/
theorem Sound.addSection (sound : Sound file) {header : String} (plain : PlainHeader header)
    (fresh : header ∉ file.headers) : Sound (file.addSection header) := by
  refine ⟨sound.unique.addSection fresh plain.other, ?_, fun {other name lines} given => ?_⟩
  · rw [IniFile.addSection, IniFile.headers, List.map_append]
    exact List.forall_mem_append.2 ⟨sound.headers, List.forall_mem_singleton.2 plain⟩
  · rw [IniFile.get?, IniFile.options?_addSection fresh plain.other] at given
    split at given
    · cases given
    · exact sound.options given

/-- A new option. -/
theorem Sound.set (sound : Sound file) (header : String) {name : String} {lines : List String}
    (option : SoundOption name lines) :
    Sound (file.mapOptions header fun options => options.set name lines) := by
  refine ⟨sound.unique.mapOptions fun options found => ?_, ?_, fun {other asked value} given => ?_⟩
  · exact IniOptions.nodup_set (sound.unique.nodup_options? found) name lines
  · rw [IniFile.headers_mapOptions]
    exact sound.headers
  · rw [IniFile.get?_mapOptions] at given
    obtain ⟨options, found, given⟩ := Option.bind_eq_some_iff.1 given
    have before (given : options.lookup asked = some value) : SoundOption asked value :=
      sound.options (sound.unique.get?_of_mem found (IniOptions.mem_of_lookup given))
    split at given
    · rw [IniOptions.lookup_set] at given
      split at given
      · rename_i same
        cases given
        exact same ▸ option
      · exact before given
    · exact before given

/-- A line that is refused is never forgotten. -/
def Refused (r : IniReading) : Prop := r.badLines ≠ []

theorem refused_addBadLine (r : IniReading) (number : Nat) (line : String) :
    (r.addBadLine number line).Refused := by
  rw [Refused, addBadLine]
  exact List.append_ne_nil_of_right_ne_nil _ (List.cons_ne_nil _ _)

/-- An item leads to plain settings or is refused. -/
theorem readItem_sound {r r' : IniReading} {number : Nat} {line : String} {trimmed : List Char}
    (plain : PlainText trimmed) (noComment : beginsComment trimmed = false)
    (before : r.Refused ∨ Sound r.file) (read : r.readItem number line trimmed = .ok r') :
    r'.Refused ∨ Sound r'.file := by
  unfold readItem at read
  split at read
  · rename_i header found
    unfold readHeader at read
    dsimp only at read
    split at read
    · cases read
    · rename_i fresh
      split at read
      · cases read
        exact before
      · rename_i other
        cases read
        obtain ⟨nonempty, inside⟩ := iniHeader?_eq_some found
        refine before.imp_right fun sound => sound.addSection ⟨nonempty, other,
          mt (inside _) plain.oneLine, mt (inside _) plain.noReturn⟩ ?_
        exact mt IniFile.lookup_isSome_iff.2 fresh
  · rename_i noHeader
    split at read
    · cases read
    · split at read
      · rename_i header _ _ name value found
        unfold readOption at read
        dsimp only at read
        split at read
        · cases read
        · cases read
          by_cases named : name = ""
          · rw [if_pos named]
            exact .inl (refused_addBadLine r number line)
          · rw [if_neg named]
            exact before.imp_right fun sound =>
              sound.set header (soundOption_of_iniOption? plain noComment noHeader found named)
      · cases read
        exact .inl (refused_addBadLine r number line)

/-- A line leads to plain settings or is refused. -/
theorem readLine_sound {r r' : IniReading} {number : Nat} {line : List Char}
    (plain : PlainText (Text.strip line)) (before : r.Refused ∨ Sound r.file)
    (read : r.readLine number line = .ok r') : r'.Refused ∨ Sound r'.file := by
  unfold readLine at read
  dsimp only at read
  split at read
  · cases read
    exact before.imp_right fun sound => sound.continued _ _ plainText_nil rfl
  · cases read
    exact before
  · rename_i c rest text
    rw [text] at plain
    split at read
    · cases read
      exact before
    · rename_i noComment
      have noComment : beginsComment (c :: rest) = false := Bool.eq_false_iff.2 noComment
      have item := @readItem_sound { r with indent := (line.takeWhile Text.isBlank).length } r'
        number (String.ofList line) (c :: rest) plain noComment before
      split at read
      · split at read
        · cases read
          exact before.imp_right fun sound => sound.continued _ _ plain noComment
        · exact item read
      · exact item read

/-- Lines lead to plain settings or to one that is refused. -/
theorem readLines_sound {lines : List (List Char)} {r r' : IniReading} {number : Nat}
    (plain : ∀ line ∈ lines, PlainText (Text.strip line)) (before : r.Refused ∨ Sound r.file)
    (read : r.readLines number lines = .ok r') : r'.Refused ∨ Sound r'.file := by
  induction lines generalizing r number with
  | nil =>
    cases read
    exact before
  | cons line lines ih =>
    obtain ⟨first, later⟩ := List.forall_mem_cons.1 plain
    rw [readLines] at read
    split at read
    · rename_i r'' eq
      exact ih later (readLine_sound first before eq) read
    · cases read

/-- What is at hand in the end has plain values. -/
theorem Sound.plain (sound : Sound file) : Ini.Plain (file.mapValues joinedValue) := by
  refine ⟨sound.unique.mapValues _, ?_, fun {header name value} given => ?_⟩
  · rw [IniFile.headers_mapValues]
    exact sound.headers
  · rw [IniFile.get?, IniFile.options?_mapValues, Option.bind_map] at given
    obtain ⟨options, found, given⟩ := Option.bind_eq_some_iff.1 given
    rw [Function.comp_apply, IniOptions.lookup_map] at given
    obtain ⟨lines, held, rfl⟩ := Option.map_eq_some_iff.1 given
    exact (sound.options (sound.unique.get?_of_mem found (IniOptions.mem_of_lookup held))).plain

end IniReading

namespace Ini

/-- The settings that are read from a text are plain. -/
theorem plain_of_ofText {cs : List Char} {ini : Ini} (read : ofText cs = .ok ini) : ini.Plain := by
  unfold ofText at read
  split at read
  · cases read
  · rename_i r eq
    have sound := IniReading.readLines_sound (fun _ => plain_linesOf)
      (.inr IniReading.sound_empty) eq
    split at read
    · -- No line was refused, or there would be no result.
      rename_i none'
      cases read
      exact (sound.resolve_left (not_not.2 (List.isEmpty_iff.1 none'))).plain
    · cases read

/-- The settings that are read from bytes are plain. -/
theorem plain_of_ofBytes {bytes : List UInt8} {ini : Ini} (read : ofBytes bytes = .ok ini) :
    ini.Plain := by
  unfold ofBytes at read
  split at read
  · cases read
  · exact plain_of_ofText read
  · split at read <;> cases read

end Ini

end InstallScript
