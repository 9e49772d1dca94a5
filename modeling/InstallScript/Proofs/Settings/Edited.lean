import InstallScript.Installation.Settings
import InstallScript.Proofs.Settings.Plain

/-!
Settings after changes. The last change of an option counts (`get?_editSettings`), and if the last
changes of all options can stand in a file, so can the settings that they lead to
(`plain_editSettings`). The header of the default section is refused; with the empty header an
option goes to the default section, and an empty section comes with it.
-/

namespace InstallScript

/-! ## One change -/

namespace Ini

/-- Settings with a section under a header. -/
def opened (ini : Ini) (header : String) : Ini :=
  if header ∈ ini.headers then ini else ini.addSection header

/-- The header under which an option is set. -/
def optionHeader (header : String) : String := if header = "" then defaultHeader else header

variable {ini ini' : Ini} {header name value : String}

theorem edit_eq (unique : ini.Unique) (header name value : String) : ini.edit header name value =
    if header = defaultHeader then .error .reservedHeader
    else .ok ((ini.opened header).mapOptions (optionHeader header) fun options =>
      options.set name value) := by
  unfold edit opened optionHeader
  dsimp only
  by_cases given : header ∈ ini.headers
  · have other : header ≠ defaultHeader := by
      rintro rfl
      exact unique.reserved given
    rw [if_pos (IniFile.lookup_isSome_iff.2 given), if_neg other, if_pos given]
  · rw [if_neg (mt IniFile.lookup_isSome_iff.1 given), if_neg given]

theorem edit_cases (unique : ini.Unique) (edits : ini.edit header name value = .ok ini') :
    header ≠ defaultHeader ∧ ini' = (ini.opened header).mapOptions (optionHeader header)
      fun options => options.set name value := by
  rw [edit_eq unique] at edits
  split at edits
  · cases edits
  · rename_i other
    cases edits
    exact ⟨other, rfl⟩

theorem unique_opened (unique : ini.Unique) (other : header ≠ defaultHeader) :
    (ini.opened header).Unique := by
  unfold opened
  split
  · exact unique
  · rename_i fresh
    exact unique.addSection fresh other

theorem unique_edit (unique : ini.Unique) (edits : ini.edit header name value = .ok ini') :
    ini'.Unique := by
  obtain ⟨other, rfl⟩ := edit_cases unique edits
  have unique := unique_opened unique other
  exact unique.mapOptions fun options found =>
    IniOptions.nodup_set (unique.nodup_options? found) name value

theorem headers_edit (unique : ini.Unique) (edits : ini.edit header name value = .ok ini') :
    ∀ other ∈ ini'.headers, other ∈ ini.headers ∨ other = header := by
  obtain ⟨-, rfl⟩ := edit_cases unique edits
  intro other member
  rw [IniFile.headers_mapOptions] at member
  unfold opened at member
  split at member
  · exact .inl member
  · rw [IniFile.addSection, IniFile.headers, List.map_append, List.mem_append] at member
    exact member.imp_right List.mem_singleton.1

/-- A section that is added has no options. -/
theorem options?_opened (other : header ≠ defaultHeader) (asked : String) :
    (ini.opened header).options? asked = if asked = header then
      some ((ini.options? header).getD []) else ini.options? asked := by
  unfold opened
  split
  · rename_i given
    split
    · rename_i same
      obtain ⟨options, found⟩ := Option.isSome_iff_exists.1 (IniFile.lookup_isSome_iff.2 given)
      have found : ini.options? header = some options := (if_neg other).trans found
      rw [same, found]
      rfl
    · rfl
  · rename_i fresh
    have missing : ini.options? header = none :=
      (if_neg other).trans (IniOptions.lookup_eq_none_iff.2 fresh)
    rw [IniFile.options?_addSection fresh other, missing]
    rfl

/-- A change is seen under its header, and nowhere else. -/
theorem get?_edit (unique : ini.Unique) (nonempty : header ≠ "")
    (edits : ini.edit header name value = .ok ini') (asked key : String) : ini'.get? asked key =
      if asked = header ∧ key = name then some value else ini.get? asked key := by
  obtain ⟨other, rfl⟩ := edit_cases unique edits
  rw [IniFile.get?, IniFile.options?_mapOptions, options?_opened other, optionHeader,
    if_neg nonempty]
  by_cases same : asked = header
  · subst same
    simp only [if_pos, true_and, Option.map_some, Option.bind_some]
    rw [IniOptions.lookup_set]
    split
    · rfl
    · rw [IniFile.get?]
      cases ini.options? asked <;> rfl
  · have differs : ¬ (asked = header ∧ key = name) := fun both => same both.1
    simp only [if_neg same, if_neg differs, Option.map_id']
    rfl

end Ini

/-! ## Changes one after another -/

namespace Installation

/-- The value that an option is given by the last change of it. -/
def lastQueued (edits : List IniEdit) (header key : String) : Option String :=
  ((edits.filter fun e => e.header = header && e.key = key).getLast?).map (·.value)

theorem lastQueued_cons (e : IniEdit) (edits : List IniEdit) (header key : String) :
    lastQueued (e :: edits) header key = (lastQueued edits header key).or
      (if header = e.header ∧ key = e.key then some e.value else none) := by
  unfold lastQueued
  rw [List.filter_cons]
  by_cases about : e.header = header ∧ e.key = key
  · have about' : header = e.header ∧ key = e.key := ⟨about.1.symm, about.2.symm⟩
    rw [if_pos (by simpa using about), if_pos about', List.getLast?_cons]
    cases (edits.filter fun e => e.header = header && e.key = key).getLast? <;> rfl
  · have about' : ¬ (header = e.header ∧ key = e.key) := fun both => about ⟨both.1.symm, both.2.symm⟩
    rw [if_neg (by simpa using about), if_neg about', Option.or_none]

/-- An option is changed last by one of the changes. -/
theorem exists_of_lastQueued {edits : List IniEdit} {header key value : String}
    (last : lastQueued edits header key = some value) :
    ∃ e ∈ edits, e.header = header ∧ e.key = key ∧ e.value = value := by
  obtain ⟨e, isLast, rfl⟩ := Option.map_eq_some_iff.1 last
  obtain ⟨member, about⟩ := List.mem_filter.1 (List.mem_of_getLast? isLast)
  obtain ⟨header, key⟩ : e.header = header ∧ e.key = key := by simpa using about
  exact ⟨e, member, header, key, rfl⟩

/-- Each option that is changed is changed last by one of the changes. -/
theorem lastQueued_of_mem {edits : List IniEdit} {e : IniEdit} (member : e ∈ edits) :
    ∃ value, lastQueued edits e.header e.key = some value := by
  have about : e ∈ edits.filter fun e' => e'.header = e.header && e'.key = e.key :=
    List.mem_filter.2 ⟨member, by simp⟩
  have last := List.getLast?_eq_some_getLast (List.ne_nil_of_mem about)
  exact ⟨_, congrArg (Option.map IniEdit.value) last⟩

variable {ini ini' : Ini} {edits : List IniEdit}

theorem editSettings_cons {e : IniEdit} (done : editSettings ini (e :: edits) = .ok ini') :
    ∃ next, ini.edit e.header e.key e.value = .ok next ∧ editSettings next edits = .ok ini' := by
  rw [editSettings] at done
  split at done
  · rename_i next eq
    exact ⟨next, eq, done⟩
  · cases done

theorem unique_editSettings (unique : ini.Unique) (done : editSettings ini edits = .ok ini') :
    ini'.Unique := by
  induction edits generalizing ini with
  | nil =>
    cases done
    exact unique
  | cons e edits ih =>
    obtain ⟨next, first, later⟩ := editSettings_cons done
    exact ih (Ini.unique_edit unique first) later

/-- Nothing is set under the header of the default section. -/
theorem reserved_editSettings (unique : ini.Unique) (done : editSettings ini edits = .ok ini') :
    ∀ e ∈ edits, e.header ≠ defaultHeader := by
  induction edits generalizing ini with
  | nil => exact nofun
  | cons e edits ih =>
    obtain ⟨next, first, later⟩ := editSettings_cons done
    exact List.forall_mem_cons.2
      ⟨(Ini.edit_cases unique first).1, ih (Ini.unique_edit unique first) later⟩

theorem headers_editSettings (unique : ini.Unique) (done : editSettings ini edits = .ok ini') :
    ∀ header ∈ ini'.headers, header ∈ ini.headers ∨ ∃ e ∈ edits, e.header = header := by
  induction edits generalizing ini with
  | nil =>
    cases done
    exact fun header member => .inl member
  | cons e edits ih =>
    obtain ⟨next, first, later⟩ := editSettings_cons done
    intro header member
    rcases ih (Ini.unique_edit unique first) later header member with before | ⟨e', given, eq⟩
    · rcases Ini.headers_edit unique first header before with before | eq
      · exact .inl before
      · exact .inr ⟨e, List.mem_cons_self, eq.symm⟩
    · exact .inr ⟨e', List.mem_cons_of_mem _ given, eq⟩

/-- The last change of an option counts; the others are as they were. -/
theorem get?_editSettings (unique : ini.Unique) (nonempty : ∀ e ∈ edits, e.header ≠ "")
    (done : editSettings ini edits = .ok ini') (header key : String) :
    ini'.get? header key = (lastQueued edits header key).or (ini.get? header key) := by
  induction edits generalizing ini with
  | nil =>
    cases done
    rfl
  | cons e edits ih =>
    obtain ⟨next, first, later⟩ := editSettings_cons done
    obtain ⟨isFirst, nonempty⟩ := List.forall_mem_cons.1 nonempty
    rw [ih (Ini.unique_edit unique first) nonempty later, lastQueued_cons, Option.or_assoc,
      Ini.get?_edit unique isFirst first]
    congr 1
    split <;> rfl

/-- An option that a file can hold, with its value. -/
structure PlainSetting (header key value : String) : Prop where
  header : PlainHeader header
  option : PlainOption key value

/-- What is set last for each option can stand in a file. -/
def PlainEdits (edits : List IniEdit) : Prop :=
  ∀ {header key value}, lastQueued edits header key = some value → PlainSetting header key value

theorem PlainEdits.headers (plain : PlainEdits edits) : ∀ e ∈ edits, PlainHeader e.header := by
  intro e member
  obtain ⟨value, last⟩ := lastQueued_of_mem member
  exact (plain last).header

/-- Plain changes of plain settings lead to plain settings. -/
theorem plain_editSettings (plain : ini.Plain) (plainEdits : PlainEdits edits)
    (done : editSettings ini edits = .ok ini') : ini'.Plain := by
  refine ⟨unique_editSettings plain.unique done, fun header member => ?_, fun given => ?_⟩
  · rcases headers_editSettings plain.unique done header member with before | ⟨e, given, rfl⟩
    · exact plain.headers header before
    · exact plainEdits.headers e given
  · rw [get?_editSettings plain.unique (fun e member => (plainEdits.headers e member).nonempty)
      done] at given
    rcases Option.or_eq_some_iff.1 given with last | ⟨-, before⟩
    · exact (plainEdits last).option
    · exact plain.options before

end Installation

end InstallScript
