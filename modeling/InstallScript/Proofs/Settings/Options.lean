import Mathlib.Data.List.Nodup
import InstallScript.Ini

/-!
Options and sections. Settings files are tables of tables. As long as no header and no option of a
section occurs twice (`IniFile.Unique`), they are the same as what they give for each header and
option, and each change is seen there as a change of one value.
-/

namespace InstallScript

variable {α β : Type}

/-! ## Options -/

namespace IniOptions

/-- The names of options. -/
def names (options : IniOptions α) : List String := options.map (·.1)

theorem names_cons (key : String) (value : α) (options : IniOptions α) :
    names ((key, value) :: options) = key :: options.names := rfl

theorem lookup_eq_none_iff {options : IniOptions α} {name : String} :
    options.lookup name = none ↔ name ∉ options.names := by
  rw [List.lookup_eq_none_iff, names, List.mem_map]
  constructor
  · rintro none' ⟨entry, member, rfl⟩
    simpa using none' entry member
  · intro absent entry member
    rw [bne_iff_ne]
    rintro rfl
    exact absent ⟨entry, member, rfl⟩

theorem lookup_isSome_iff {options : IniOptions α} {name : String} :
    (options.lookup name).isSome = true ↔ name ∈ options.names := by
  rw [Option.isSome_iff_ne_none, Ne, lookup_eq_none_iff, not_not]

theorem lookup_map (options : IniOptions α) (f : α → β) (name : String) :
    (options.map fun (key, value) => (key, f value)).lookup name =
      (options.lookup name).map f := by
  induction options with
  | nil => rfl
  | cons entry rest ih =>
    obtain ⟨key, old⟩ := entry
    rw [List.map_cons]
    dsimp only
    rw [List.lookup_cons, List.lookup_cons, ih]
    split <;> rfl

theorem mem_of_lookup {options : IniOptions α} {name : String} {value : α}
    (found : options.lookup name = some value) : (name, value) ∈ options := by
  induction options with
  | nil => cases found
  | cons entry rest ih =>
    obtain ⟨key, old⟩ := entry
    rw [List.lookup_cons] at found
    split at found
    · rename_i same
      cases found
      rw [eq_of_beq same]
      exact List.mem_cons_self
    · exact List.mem_cons_of_mem _ (ih found)

/-- Of options that do not occur twice each is found. -/
theorem lookup_of_mem {options : IniOptions α} (once : options.names.Nodup) {name : String}
    {value : α} (member : (name, value) ∈ options) : options.lookup name = some value := by
  induction options with
  | nil => cases member
  | cons entry rest ih =>
    obtain ⟨key, old⟩ := entry
    obtain ⟨absent, once⟩ := List.nodup_cons.1 once
    rcases List.mem_cons.1 member with same | later
    · cases same
      exact List.lookup_cons_self
    · have other : name ≠ key := by
        rintro rfl
        exact absent (List.mem_map_of_mem (f := (·.1)) later)
      rw [List.lookup_cons, beq_false_of_ne other]
      exact ih once later

theorem set_of_absent {options : IniOptions α} {name : String} (absent : name ∉ options.names)
    (value : α) : options.set name value = options ++ [(name, value)] := by
  induction options with
  | nil => rfl
  | cons entry rest ih =>
    obtain ⟨key, old⟩ := entry
    obtain ⟨other, absent⟩ := not_or.1 (mt List.mem_cons.2 absent)
    rw [IniOptions.set, if_neg (Ne.symm other), ih absent]
    rfl

theorem names_set (options : IniOptions α) (name : String) (value : α) :
    (options.set name value).names =
      if name ∈ options.names then options.names else options.names ++ [name] := by
  induction options with
  | nil => rfl
  | cons entry rest ih =>
    obtain ⟨key, old⟩ := entry
    rw [IniOptions.set, names_cons]
    by_cases same : key = name
    · rw [if_pos same, if_pos (List.mem_cons.2 (.inl same.symm)), names_cons]
    · rw [if_neg same, names_cons, ih]
      by_cases member : name ∈ IniOptions.names rest
      · rw [if_pos member, if_pos (List.mem_cons_of_mem _ member)]
      · have absent : name ∉ key :: IniOptions.names rest := fun other =>
          (List.mem_cons.1 other).elim (fun eq => same eq.symm) member
        rw [if_neg member, if_neg absent, List.cons_append]

theorem nodup_set {options : IniOptions α} (once : options.names.Nodup) (name : String)
    (value : α) : (options.set name value).names.Nodup := by
  rw [names_set]
  split
  · exact once
  · rename_i absent
    exact List.nodup_append.2 ⟨once, List.nodup_singleton _, fun a member b single same =>
      absent (by rwa [← List.mem_singleton.1 single, ← same])⟩

theorem lookup_set (options : IniOptions α) (name other : String) (value : α) :
    (options.set name value).lookup other =
      if other = name then some value else options.lookup other := by
  induction options with
  | nil =>
    rw [IniOptions.set, List.lookup_cons]
    by_cases same : other = name
    · simp [same]
    · rw [beq_false_of_ne same, if_neg same]
  | cons entry rest ih =>
    obtain ⟨key, old⟩ := entry
    rw [IniOptions.set]
    by_cases same : key = name
    · rw [if_pos same, List.lookup_cons, List.lookup_cons]
      by_cases found : other = name
      · simp [found, same]
      · rw [if_neg found, beq_false_of_ne (same ▸ found)]
    · rw [if_neg same, List.lookup_cons, List.lookup_cons, ih]
      by_cases found : other = key
      · have differs : other ≠ name := fun eq => same (found.symm.trans eq)
        simp [found, same]
      · rw [beq_false_of_ne found]

theorem names_adjust (options : IniOptions α) (name : String) (f : α → α) :
    (options.adjust name f).names = options.names := by
  unfold adjust names
  rw [List.map_map]
  refine List.map_congr_left fun entry _ => ?_
  dsimp only [Function.comp_apply]
  split <;> rfl

theorem adjust_of_absent {options : IniOptions α} {name : String}
    (absent : name ∉ options.names) (f : α → α) : options.adjust name f = options := by
  unfold adjust
  have same : ∀ entry ∈ options,
      (if entry.1 = name then (entry.1, f entry.2) else (entry.1, entry.2)) = id entry := by
    rintro ⟨key, value⟩ member
    refine if_neg ?_
    rintro rfl
    exact absent (List.mem_map_of_mem (f := (·.1)) member)
  exact (List.map_congr_left same).trans (List.map_id options)

/-- Changing the option that has been added last. -/
theorem adjust_append_last {options : IniOptions α} {name : String}
    (absent : name ∉ options.names) (value : α) (f : α → α) :
    (options ++ [(name, value)]).adjust name f = options ++ [(name, f value)] := by
  have before := adjust_of_absent absent f
  unfold adjust at before ⊢
  rw [List.map_append, before, List.map_singleton]
  dsimp only
  rw [if_pos rfl]

end IniOptions

/-! ## Sections -/

namespace IniFile

/-- The headers of sections, the default section aside. -/
def headers (ini : IniFile α) : List String := ini.sections.map (·.1)

/-- No header and no option under a header occurs twice, and the header of the default section is no
other's. -/
structure Unique (ini : IniFile α) : Prop where
  headers : ini.headers.Nodup
  reserved : defaultHeader ∉ ini.headers
  defaults : ini.defaults.names.Nodup
  options : ∀ entry ∈ ini.sections, entry.2.names.Nodup

theorem unique_empty : ({} : IniFile α).Unique :=
  ⟨List.nodup_nil, List.not_mem_nil, List.nodup_nil, nofun⟩

theorem lookup_isSome_iff {ini : IniFile α} {header : String} :
    (ini.sections.lookup header).isSome = true ↔ header ∈ ini.headers :=
  @IniOptions.lookup_isSome_iff _ ini.sections _

/-- What is found under a header does not occur twice. -/
theorem Unique.nodup_options? {ini : IniFile α} (unique : ini.Unique) {header : String}
    {options : IniOptions α} (found : ini.options? header = some options) :
    options.names.Nodup := by
  unfold options? at found
  split at found
  · cases found
    exact unique.defaults
  · exact unique.options _ (@IniOptions.mem_of_lookup _ ini.sections _ _ found)

theorem options?_default (ini : IniFile α) : ini.options? defaultHeader = some ini.defaults :=
  if_pos rfl

theorem Unique.options?_of_mem {ini : IniFile α} (unique : ini.Unique) {header : String}
    {options : IniOptions α} (member : (header, options) ∈ ini.sections) :
    ini.options? header = some options := by
  have other : header ≠ defaultHeader := by
    rintro rfl
    exact unique.reserved (List.mem_map_of_mem (f := (·.1)) member)
  rw [options?, if_neg other]
  exact @IniOptions.lookup_of_mem _ ini.sections unique.headers _ _ member

/-- What is given for an option stands in a section that is found. -/
theorem get?_eq_some {ini : IniFile α} {header name : String} {value : α}
    (given : ini.get? header name = some value) :
    ∃ options, ini.options? header = some options ∧ (name, value) ∈ options := by
  obtain ⟨options, found, given⟩ := Option.bind_eq_some_iff.1 given
  exact ⟨options, found, IniOptions.mem_of_lookup given⟩

theorem Unique.get?_of_mem {ini : IniFile α} (unique : ini.Unique) {header : String}
    {options : IniOptions α} (found : ini.options? header = some options) {name : String}
    {value : α} (member : (name, value) ∈ options) : ini.get? header name = some value := by
  rw [get?, found]
  exact IniOptions.lookup_of_mem (unique.nodup_options? found) member

/-! ## Changes of one section -/

section

variable (ini : IniFile α) (header : String) (f : IniOptions α → IniOptions α)

theorem headers_mapOptions : (ini.mapOptions header f).headers = ini.headers := by
  unfold mapOptions headers
  split
  · rfl
  · rw [List.map_map]
    refine List.map_congr_left fun entry _ => ?_
    dsimp only [Function.comp_apply]
    split <;> rfl

theorem lookup_map_section (sections : List (String × IniOptions α)) (other : String) :
    (sections.map fun (key, options) =>
        if key = header then (key, f options) else (key, options)).lookup other =
      (sections.lookup other).map fun options =>
        if other = header then f options else options := by
  induction sections with
  | nil => rfl
  | cons entry rest ih =>
    obtain ⟨key, options⟩ := entry
    rw [List.map_cons]
    dsimp only
    by_cases same : key = header
    · rw [if_pos same, List.lookup_cons, List.lookup_cons, ih]
      by_cases found : other = key
      · simp [found, same]
      · rw [beq_false_of_ne found]
    · rw [if_neg same, List.lookup_cons, List.lookup_cons, ih]
      by_cases found : other = key
      · simp [found, same]
      · rw [beq_false_of_ne found]

theorem options?_mapOptions (other : String) : (ini.mapOptions header f).options? other =
    (ini.options? other).map fun options => if other = header then f options else options := by
  unfold mapOptions options?
  by_cases default : other = defaultHeader
  · rw [if_pos default, if_pos default]
    subst default
    by_cases same : header = defaultHeader
    · rw [if_pos same]
      simp [same]
    · rw [if_neg same]
      simp [Ne.symm same]
  · rw [if_neg default, if_neg default]
    by_cases same : header = defaultHeader
    · rw [if_pos same]
      have differs : other ≠ header := fun eq => default (eq.trans same)
      simp [differs]
    · rw [if_neg same]
      exact lookup_map_section header f ini.sections other

variable {ini header f} in
theorem Unique.mapOptions (unique : ini.Unique)
    (keeps : ∀ options, ini.options? header = some options → (f options).names.Nodup) :
    (ini.mapOptions header f).Unique := by
  refine ⟨?_, ?_, ?_, ?_⟩
  · rw [headers_mapOptions]
    exact unique.headers
  · rw [headers_mapOptions]
    exact unique.reserved
  · unfold IniFile.mapOptions
    split
    · rename_i same
      exact keeps ini.defaults (by rw [same, options?_default])
    · exact unique.defaults
  · intro entry member
    unfold IniFile.mapOptions at member
    split at member
    · exact unique.options entry member
    · obtain ⟨⟨key, options⟩, before, eq⟩ := List.mem_map.1 member
      rw [← eq]
      dsimp only
      split
      · rename_i same
        exact keeps options (same ▸ unique.options?_of_mem before)
      · exact unique.options (key, options) before

end

theorem Unique.addSection {ini : IniFile α} (unique : ini.Unique) {header : String}
    (fresh : header ∉ ini.headers) (other : header ≠ defaultHeader) :
    (ini.addSection header).Unique := by
  have headers : (ini.addSection header).headers = ini.headers ++ [header] := List.map_append
  refine ⟨?_, ?_, unique.defaults, ?_⟩
  · rw [headers]
    exact List.nodup_append.2 ⟨unique.headers, List.nodup_singleton _, fun a member b single same =>
      fresh (by rwa [← List.mem_singleton.1 single, ← same])⟩
  · rw [headers, List.mem_append, List.mem_singleton]
    exact fun member => member.elim unique.reserved (Ne.symm other)
  · intro entry member
    rcases List.mem_append.1 member with before | last
    · exact unique.options entry before
    · rw [List.mem_singleton.1 last]
      exact List.nodup_nil

theorem options?_addSection {ini : IniFile α} {header : String} (fresh : header ∉ ini.headers)
    (other : header ≠ defaultHeader) (asked : String) :
    (ini.addSection header).options? asked =
      if asked = header then some [] else ini.options? asked := by
  unfold options? addSection
  by_cases default : asked = defaultHeader
  · have differs : asked ≠ header := fun eq => other (eq.symm.trans default)
    rw [if_pos default, if_neg differs, if_pos default]
  · rw [if_neg default, if_neg default, List.lookup_append]
    by_cases same : asked = header
    · have absent : ini.sections.lookup asked = none := by
        rw [same]
        exact IniOptions.lookup_eq_none_iff.2 fresh
      rw [if_pos same, absent, same, List.lookup_cons_self]
      rfl
    · rw [if_neg same, List.lookup_cons, beq_false_of_ne same]
      exact Option.or_none

/-! ## Changes of all values -/

theorem headers_mapValues (ini : IniFile α) (f : α → β) :
    (ini.mapValues f).headers = ini.headers := by
  unfold mapValues headers
  rw [List.map_map]
  rfl

theorem options?_mapValues (ini : IniFile α) (f : α → β) (header : String) :
    (ini.mapValues f).options? header =
      (ini.options? header).map fun options => options.map fun (name, value) => (name, f value) := by
  unfold options? mapValues
  split
  · rfl
  · exact IniOptions.lookup_map ini.sections _ header

theorem names_mapValues (options : IniOptions α) (f : α → β) :
    IniOptions.names (options.map fun (name, value) => (name, f value)) = options.names := by
  unfold IniOptions.names
  rw [List.map_map]
  rfl

theorem Unique.mapValues {ini : IniFile α} (unique : ini.Unique) (f : α → β) :
    (ini.mapValues f).Unique := by
  refine ⟨?_, ?_, ?_, ?_⟩
  · rw [headers_mapValues]
    exact unique.headers
  · rw [headers_mapValues]
    exact unique.reserved
  · exact (names_mapValues ini.defaults f).symm ▸ unique.defaults
  · intro entry member
    obtain ⟨⟨header, options⟩, before, eq⟩ := List.mem_map.1 member
    rw [← eq]
    exact (names_mapValues options f).symm ▸ unique.options (header, options) before

end IniFile

end InstallScript
