import InstallScript.Proofs.Files.CleanParts

/-!
What a path means, told from its text alone. The separators cut a path into components, of which the
empty ones and single dots do not count (`componentsOf`); they are walked one after another from the
current directory, or from the root if a separator comes first, and two dots leave the directory
that the walk has come to (`Leads`). `resolvePath` gives where this leads (`resolvePath_exact`), but
for one thing: a path that begins with exactly two separators is refused, although more of them, or
one, lead to the root (`doubled_separator_refused`).
-/

namespace InstallScript

/-! ## The text of a path -/

/-- The characters that separate the components of a path. -/
def isSeparator (c : Char) : Bool := c = '/' || c = '\\'

/-- The components of a path: what stands between separators, if it is neither empty nor a dot. -/
def componentsOf (path : String) : List String :=
  ((path.toList.splitOnP isSeparator).map String.ofList).filter fun piece =>
    piece ≠ "" && piece ≠ "."

/-- With how many separators a path begins. -/
def leadingSeparators (path : String) : Nat := (path.toList.takeWhile isSeparator).length

/-- Where the walk begins: in the root if a separator comes first, and else in the directory. -/
def startOf (path : String) (directory : List String) : List String :=
  if leadingSeparators path = 0 then directory else []

/-! ## Walks -/

/-- Components lead from one directory to another: two dots to the directory above, and anything
else to what has that name in the directory. -/
inductive Leads : List String → List String → List String → Prop
  | here (directory : List String) : Leads directory [] directory
  | up {directory rest reached : List String} {name : String}
    (onwards : Leads directory rest reached) : Leads (directory ++ [name]) (".." :: rest) reached
  | down {directory rest reached : List String} {component : String} (named : component ≠ "..")
    (onwards : Leads (directory ++ [component]) rest reached) :
    Leads directory (component :: rest) reached

/-- Some two dots find nothing to leave: what stands in front of them leads to the root. -/
def ClimbsOut (directory components : List String) : Prop :=
  ∃ before after, components = before ++ ".." :: after ∧ Leads directory before []

theorem walkParts_eq_some_iff {directory components reached : List String} :
    walkParts directory components = some reached ↔ Leads directory components reached := by
  constructor
  · intro walks
    induction components generalizing directory with
    | nil =>
      cases walks
      exact .here _
    | cons component rest ih =>
      rw [walkParts] at walks
      split at walks
      · rename_i dots
        split at walks
        · cases walks
        · rename_i inside
          have inside : directory ≠ [] := mt List.isEmpty_iff.2 inside
          rw [dots, ← List.dropLast_concat_getLast inside]
          exact .up (ih walks)
      · rename_i named
        exact .down named (ih walks)
  · intro leads
    induction leads with
    | here => rfl
    | @up directory rest reached name _ ih =>
      have inside : ¬ (directory ++ [name]).isEmpty = true := by simp
      rw [walkParts, if_pos rfl, if_neg inside, List.dropLast_concat]
      exact ih
    | down named _ ih =>
      rw [walkParts, if_neg named]
      exact ih

theorem walkParts_eq_none_iff {directory components : List String} :
    walkParts directory components = none ↔ ClimbsOut directory components := by
  constructor
  · intro stuck
    induction components generalizing directory with
    | nil => cases stuck
    | cons component rest ih =>
      rw [walkParts] at stuck
      split at stuck
      · rename_i dots
        split at stuck
        · rename_i root
          rw [dots, List.isEmpty_iff.1 root]
          exact ⟨[], rest, rfl, .here []⟩
        · rename_i inside
          have inside : directory ≠ [] := mt List.isEmpty_iff.2 inside
          obtain ⟨before, after, eq, leads⟩ := ih stuck
          rw [dots, eq, ← List.dropLast_concat_getLast inside]
          exact ⟨".." :: before, after, rfl, .up leads⟩
      · rename_i named
        obtain ⟨before, after, eq, leads⟩ := ih stuck
        rw [eq]
        exact ⟨component :: before, after, rfl, .down named leads⟩
  · rintro ⟨before, after, rfl, leads⟩
    rw [walkParts_append, walkParts_eq_some_iff.2 leads]
    rfl

/-- Walks are put together at the directory that the first one comes to. -/
theorem leads_append_iff {directory first second reached : List String} :
    Leads directory (first ++ second) reached ↔
      ∃ halfway, Leads directory first halfway ∧ Leads halfway second reached := by
  simp only [← walkParts_eq_some_iff, walkParts_append, Option.bind_eq_some_iff]

/-! ## Slashes for separators -/

theorem slash_iff {c : Char} : (if c = '\\' then '/' else c) = '/' ↔ isSeparator c = true := by
  unfold isSeparator
  split <;> simp [*]

/-- Cutting at slashes once all separators are slashes is cutting at separators. -/
theorem splitSlashes_separators (read cs : List Char) :
    splitSlashes read (cs.map fun c => if c = '\\' then '/' else c) =
      (cs.splitOnPPrepend isSeparator read).map String.ofList := by
  induction cs generalizing read with
  | nil => rfl
  | cons c cs ih =>
    rw [List.map_cons, splitSlashes, List.splitOnPPrepend_cons_eq_if]
    by_cases separates : isSeparator c = true
    · rw [if_pos (slash_iff.2 separates), if_pos separates, ih, List.splitOnPPrepend_nil_right,
        List.map_cons]
    · have other : c ≠ '\\' := by
        rintro rfl
        exact separates rfl
      rw [if_neg (mt slash_iff.1 separates), if_neg separates, if_neg other, ih]

theorem components_withSlashes (path : String) :
    (Path.ofString (withSlashes path)).components = componentsOf path := by
  unfold Path.ofString withSlashes componentsOf
  dsimp only
  rw [String.toList_ofList, splitSlashes_separators, List.splitOnPPrepend_nil_right]

theorem takeWhile_of_noSlash {cs : List Char}
    (other : ∀ rest, cs.map (fun c => if c = '\\' then '/' else c) ≠ '/' :: rest) :
    cs.takeWhile isSeparator = [] := by
  cases cs with
  | nil => rfl
  | cons c cs =>
    refine List.takeWhile_cons_of_neg fun separates => ?_
    rw [List.map_cons, slash_iff.2 separates] at other
    exact other _ rfl

/-- The head of a path is told by the number of its separators. -/
theorem root_withSlashes (path : String) : (Path.ofString (withSlashes path)).root =
    match leadingSeparators path with
    | 0 => ""
    | 2 => "//"
    | _ => "/" := by
  unfold Path.ofString withSlashes leadingSeparators
  dsimp only
  rw [String.toList_ofList]
  generalize path.toList = cs
  -- The cases of `Path.rootOf`; where a slash is seen there was a separator.
  unfold Path.rootOf
  split
  · rename_i eq
    obtain ⟨a, _, rfl, first, eq⟩ := List.map_eq_cons_iff.1 eq
    obtain ⟨b, _, rfl, second, eq⟩ := List.map_eq_cons_iff.1 eq
    obtain ⟨c, _, rfl, third, -⟩ := List.map_eq_cons_iff.1 eq
    rw [List.takeWhile_cons_of_pos (slash_iff.1 first),
      List.takeWhile_cons_of_pos (slash_iff.1 second),
      List.takeWhile_cons_of_pos (slash_iff.1 third)]
    rfl
  · rename_i other eq
    obtain ⟨a, _, rfl, first, eq⟩ := List.map_eq_cons_iff.1 eq
    obtain ⟨b, cs, rfl, second, rfl⟩ := List.map_eq_cons_iff.1 eq
    rw [List.takeWhile_cons_of_pos (slash_iff.1 first),
      List.takeWhile_cons_of_pos (slash_iff.1 second), takeWhile_of_noSlash other]
    rfl
  · rename_i other eq
    obtain ⟨a, cs, rfl, first, rfl⟩ := List.map_eq_cons_iff.1 eq
    rw [List.takeWhile_cons_of_pos (slash_iff.1 first), takeWhile_of_noSlash other]
    rfl
  · rename_i other
    rw [takeWhile_of_noSlash other]
    rfl

theorem root_eq_doubled_iff {path : String} :
    (Path.ofString (withSlashes path)).root = "//" ↔ leadingSeparators path = 2 := by
  rw [root_withSlashes]
  split
  · rename_i none
    simp [none]
  · rename_i two
    simp [two]
  · rename_i other
    exact ⟨nofun, fun two => (other two).elim⟩

theorem root_eq_empty_iff {path : String} :
    (Path.ofString (withSlashes path)).root = "" ↔ leadingSeparators path = 0 := by
  rw [root_withSlashes]
  split
  · rename_i none
    simp [none]
  · rename_i two
    rw [two]
    exact ⟨nofun, nofun⟩
  · rename_i other _
    exact ⟨nofun, fun none => (other none).elim⟩

/-! ## Resolving -/

theorem resolvePath_of_null {path : String} (null : '\x00' ∈ path.toList)
    (directory : List String) : resolvePath path directory = .error (.nullCharacter path) := by
  rw [resolvePath, if_pos (List.contains_iff_mem.2 null)]

theorem resolvePath_of_doubled {path : String} (absent : '\x00' ∉ path.toList)
    (doubled : leadingSeparators path = 2) (directory : List String) :
    resolvePath path directory =
      .error (.doubleSlash (Path.ofString (withSlashes path)).text) := by
  rw [resolvePath, if_neg (mt List.contains_iff_mem.1 absent)]
  exact if_pos (root_eq_doubled_iff.2 doubled)

/-- A path without a null character that does not begin with exactly two separators is walked. -/
theorem resolvePath_of_walked {path : String} (absent : '\x00' ∉ path.toList)
    (single : leadingSeparators path ≠ 2) (directory : List String) :
    resolvePath path directory =
      match walkParts (startOf path directory) (componentsOf path) with
      | some parts => .ok parts
      | none => .error (.escapesRoot path) := by
  rw [resolvePath, if_neg (mt List.contains_iff_mem.1 absent)]
  dsimp only
  rw [if_neg (mt root_eq_doubled_iff.1 single), components_withSlashes]
  simp only [root_eq_empty_iff]
  rfl

theorem resolvePath_eq_ok_iff {path : String} {directory parts : List String} :
    resolvePath path directory = .ok parts ↔ '\x00' ∉ path.toList ∧ leadingSeparators path ≠ 2 ∧
      Leads (startOf path directory) (componentsOf path) parts := by
  by_cases null : '\x00' ∈ path.toList
  · rw [resolvePath_of_null null]
    exact ⟨nofun, fun ⟨absent, _⟩ => absurd null absent⟩
  · by_cases doubled : leadingSeparators path = 2
    · rw [resolvePath_of_doubled null doubled]
      exact ⟨nofun, fun ⟨_, single, _⟩ => absurd doubled single⟩
    · rw [resolvePath_of_walked null doubled, ← walkParts_eq_some_iff]
      cases walkParts (startOf path directory) (componentsOf path) with
      | none => exact ⟨nofun, fun ⟨_, _, walks⟩ => nomatch walks⟩
      | some reached =>
        rw [Except.ok.injEq, Option.some.injEq]
        exact ⟨fun same => ⟨null, doubled, same⟩, fun ⟨_, _, same⟩ => same⟩

theorem resolvePath_eq_error_iff {path : String} {directory : List String} :
    (∃ fault, resolvePath path directory = .error fault) ↔
      '\x00' ∈ path.toList ∨ leadingSeparators path = 2 ∨
        ClimbsOut (startOf path directory) (componentsOf path) := by
  by_cases null : '\x00' ∈ path.toList
  · exact ⟨fun _ => .inl null, fun _ => ⟨_, resolvePath_of_null null directory⟩⟩
  · by_cases doubled : leadingSeparators path = 2
    · exact ⟨fun _ => .inr (.inl doubled), fun _ => ⟨_, resolvePath_of_doubled null doubled _⟩⟩
    · rw [resolvePath_of_walked null doubled, ← walkParts_eq_none_iff]
      cases walkParts (startOf path directory) (componentsOf path) with
      | none => exact ⟨fun _ => .inr (.inr rfl), fun _ => ⟨_, rfl⟩⟩
      | some reached =>
        refine ⟨nofun, ?_⟩
        rintro (given | two | stuck)
        · exact absurd given null
        · exact absurd two doubled
        · cases stuck

/-- A path leads from a directory to where its components lead, from the root on if a separator
comes first. It is refused if it holds a null character, if it begins with exactly two separators,
or if some two dots find nothing to leave, and in no other case. -/
theorem resolvePath_exact (path : String) (directory : List String) :
    (∀ parts, resolvePath path directory = .ok parts ↔
      '\x00' ∉ path.toList ∧ leadingSeparators path ≠ 2 ∧
        Leads (startOf path directory) (componentsOf path) parts) ∧
    ((∃ fault, resolvePath path directory = .error fault) ↔
      '\x00' ∈ path.toList ∨ leadingSeparators path = 2 ∨
        ClimbsOut (startOf path directory) (componentsOf path)) :=
  ⟨fun _ => resolvePath_eq_ok_iff, resolvePath_eq_error_iff⟩

/-- The components of a path behind two separators lead to a place below the root, and nothing in
the path climbs out or is a null character; and yet it is refused. -/
theorem doubled_separator_refused :
    Leads (startOf "//a" []) (componentsOf "//a") ["a"] ∧
      ¬ resolvePath "//a" [] = .ok ["a"] ∧
      ¬ ((∃ fault, resolvePath "//a" [] = .error fault) ↔
        '\x00' ∈ "//a".toList ∨ ClimbsOut (startOf "//a" []) (componentsOf "//a")) := by
  have absent : '\x00' ∉ "//a".toList := by decide +kernel
  have doubled : leadingSeparators "//a" = 2 := by decide +kernel
  have components : componentsOf "//a" = ["a"] := by decide +kernel
  have start : startOf "//a" [] = [] := by decide +kernel
  have leads : Leads [] ["a"] ["a"] := .down (by decide) (.here _)
  have inside : ¬ ClimbsOut [] ["a"] := by
    rw [← walkParts_eq_none_iff, walkParts_eq_some_iff.2 leads]
    exact nofun
  rw [components, start, resolvePath_of_doubled absent doubled]
  refine ⟨leads, nofun, fun claimed => ?_⟩
  exact (claimed.1 ⟨_, rfl⟩).elim absent inside

end InstallScript
