import InstallScript.Path

/-!
Clean components: names of something in a directory, which are neither empty nor dots and have no
slash. A path of a script resolves to such components, whatever text it is
(`cleanParts_of_resolvePath`): two dots are walked, and never kept.
-/

namespace InstallScript

/-- A component that names something in a directory. -/
structure CleanPart (component : String) : Prop where
  nonempty : component ≠ ""
  noDot : component ≠ "."
  noDots : component ≠ ".."
  noSlash : '/' ∉ component.toList

instance (component : String) : Decidable (CleanPart component) :=
  decidable_of_iff (component ≠ "" ∧ component ≠ "." ∧ component ≠ ".." ∧ '/' ∉ component.toList)
    ⟨fun ⟨nonempty, noDot, noDots, noSlash⟩ => ⟨nonempty, noDot, noDots, noSlash⟩,
      fun ⟨nonempty, noDot, noDots, noSlash⟩ => ⟨nonempty, noDot, noDots, noSlash⟩⟩

/-- Components that lead down from a directory, one level each. -/
def CleanParts (components : List String) : Prop := ∀ component ∈ components, CleanPart component

namespace CleanParts

variable {components : List String}

theorem nil : CleanParts [] := nofun

theorem append_iff {first second : List String} :
    CleanParts (first ++ second) ↔ CleanParts first ∧ CleanParts second :=
  List.forall_mem_append

theorem append {first second : List String} (clean : CleanParts first) (clean' : CleanParts second) :
    CleanParts (first ++ second) := append_iff.2 ⟨clean, clean'⟩

theorem singleton {component : String} (clean : CleanPart component) : CleanParts [component] :=
  List.forall_mem_singleton.2 clean

theorem dropLast (clean : CleanParts components) : CleanParts components.dropLast :=
  fun component member => clean component (List.dropLast_subset components member)

/-- Clean components lead down. -/
theorem down (clean : CleanParts components) : ".." ∉ components :=
  fun member => (clean _ member).noDots rfl

end CleanParts

/-! ## Paths of scripts -/

theorem noSlash_splitSlashes {read cs : List Char} (noSlash : '/' ∉ read) :
    ∀ piece ∈ splitSlashes read cs, '/' ∉ piece.toList := by
  induction cs generalizing read with
  | nil =>
    refine List.forall_mem_singleton.2 ?_
    rw [String.toList_ofList]
    exact mt List.mem_reverse.1 noSlash
  | cons c cs ih =>
    rw [splitSlashes]
    split
    · refine List.forall_mem_cons.2 ⟨?_, ih List.not_mem_nil⟩
      rw [String.toList_ofList]
      exact mt List.mem_reverse.1 noSlash
    · rename_i other
      exact ih fun member => (List.mem_cons.1 member).elim (fun eq => other eq.symm) noSlash

/-- The components of a path that a text names are clean, two dots aside. -/
theorem cleanPart_of_ofString {s component : String}
    (member : component ∈ (Path.ofString s).components) (down : component ≠ "..") :
    CleanPart component := by
  obtain ⟨piece, kept⟩ := List.mem_filter.1 member
  obtain ⟨nonempty, noDot⟩ : component ≠ "" ∧ component ≠ "." := by simpa using kept
  exact ⟨nonempty, noDot, down, noSlash_splitSlashes List.not_mem_nil component piece⟩

/-- Walking does not keep two dots. -/
theorem cleanParts_of_walkParts {directory components reached : List String}
    (clean : CleanParts directory)
    (components' : ∀ component ∈ components, component ≠ ".." → CleanPart component)
    (walks : walkParts directory components = some reached) : CleanParts reached := by
  induction components generalizing directory with
  | nil =>
    cases walks
    exact clean
  | cons component rest ih =>
    obtain ⟨first, later⟩ := List.forall_mem_cons.1 components'
    rw [walkParts] at walks
    split at walks
    · split at walks
      · cases walks
      · exact ih clean.dropLast later walks
    · rename_i down
      exact ih (clean.append (.singleton (first down))) later walks

/-- From a clean directory a path leads to clean components. -/
theorem cleanParts_of_resolvePath {path : String} {directory parts : List String}
    (clean : CleanParts directory) (resolves : resolvePath path directory = .ok parts) :
    CleanParts parts := by
  unfold resolvePath at resolves
  split at resolves
  · cases resolves
  · dsimp only at resolves
    split at resolves
    · cases resolves
    · split at resolves
      · rename_i reached walks
        cases resolves
        refine cleanParts_of_walkParts ?_ (fun _ => cleanPart_of_ofString) walks
        split
        · exact clean
        · exact .nil
      · cases resolves

end InstallScript
