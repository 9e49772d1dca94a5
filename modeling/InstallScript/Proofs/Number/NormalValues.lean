import InstallScript.Dialect.Bundled
import InstallScript.Proofs.Catalog.Loading
import InstallScript.Proofs.Number.WholeNumbers

/-!
Numbers in normal form. A number is normal if it is no double-precision number with a whole value,
so that a normal number that is equal to a whole number is that whole number
(`Number.isNormal_iff`). In whatever way a value comes about, a number that it holds is normal.
-/

namespace InstallScript

namespace Number

theorem normalize_isNormal (n : Number) : n.normalize.IsNormal := by
  cases n with
  | int => trivial
  | float x =>
    unfold normalize
    dsimp only
    split
    · trivial
    · rename_i broken
      exact broken

/-- A double-precision number is equal to a whole number if its exact value is. -/
theorem same_float_int_iff (x : Binary64) (k : Int) :
    (Number.float x).same (.int k) = true ↔ x.toInt? = some k := by
  rw [Binary64.toInt?_eq_some_iff]
  unfold same
  rw [decide_eq_true_eq]
  cases x with
  | nan => exact iff_of_false nofun nofun
  | infinite negative => cases negative <;> exact iff_of_false nofun nofun
  | finite negative m e =>
    show some (if scaleTwo _ e < (k : ℚ) then Ordering.lt
      else if scaleTwo _ e = (k : ℚ) then .eq else .gt) = some .eq ↔
        some (scaleTwo _ e) = some (k : ℚ)
    generalize scaleTwo _ e = r
    rw [Option.some_inj, Option.some_inj]
    split
    · rename_i less
      exact iff_of_false nofun (ne_of_lt less)
    · split
      · rename_i equal
        exact iff_of_true rfl equal
      · rename_i other
        exact iff_of_false nofun other

/-- A number is normal if only whole numbers that are kept as such are equal to whole numbers. -/
theorem isNormal_iff (n : Number) :
    n.IsNormal ↔ ∀ k : Int, n.same (.int k) = true → n = .int k := by
  cases n with
  | int m =>
    refine iff_of_true trivial fun k same => ?_
    have equal : compare m k = .eq := Option.some_inj.1 (of_decide_eq_true same)
    rw [Std.compare_eq_iff_eq.1 equal]
  | float x =>
    constructor
    · intro normal k same
      rw [same_float_int_iff] at same
      cases normal.symm.trans same
    · intro only
      refine Option.eq_none_iff_forall_ne_some.2 fun k whole => ?_
      cases only k ((same_float_int_iff x k).2 whole)

end Number

namespace Value

/-- The number that a value holds is normal. -/
def IsNormal : Value → Prop
  | .number n => n.IsNormal
  | _ => True

theorem ofNumber_isNormal (n : Number) : (ofNumber n).IsNormal := n.normalize_isNormal

theorem ofComputed_isNormal {r : Except Overflow Number} {v : Value}
    (gives : ofComputed r = .ok v) : v.IsNormal := by
  cases r with
  | ok n =>
    cases gives
    exact ofNumber_isNormal n
  | error => cases gives

theorem arithmetic_isNormal {operator : BinaryOperator} {x y : Number} {v : Value}
    (gives : arithmetic operator x y = .ok v) : v.IsNormal := by
  cases operator with
  | plus | minus | star => exact ofComputed_isNormal gives
  | slash | percent =>
    unfold arithmetic at gives
    dsimp only at gives
    split at gives
    · cases gives
    · exact ofComputed_isNormal gives
  | _ => cases gives

/-- What an operator gives is normal. -/
theorem apply_isNormal {operator : BinaryOperator} {a b v : Value}
    (gives : apply operator a b = .ok v) : v.IsNormal := by
  unfold apply at gives
  dsimp only at gives
  split at gives
  case h_9 =>
    split at gives
    · cases gives
      trivial
    · exact arithmetic_isNormal gives
  case h_10 | h_11 | h_12 =>
    split at gives
    · cases gives
      try trivial
    · cases gives
  all_goals
    cases gives
    try trivial

theorem negate_isNormal {a v : Value} (gives : a.negate = .ok v) : v.IsNormal := by
  cases a with
  | number n =>
    cases gives
    exact ofNumber_isNormal _
  | _ => cases gives

/-- What a datum stands for is normal. -/
theorem ofDatum?_isNormal {d : Datum} {v : Value} (stands : ofDatum? d = some v) :
    v.IsNormal := by
  cases d with
  | number n =>
    cases stands
    exact ofNumber_isNormal n
  | none | bool | text =>
    cases stands
    trivial
  | _ => cases stands

end Value

theorem Run.literalValue_isNormal (l : Literal) : (literalValue l).IsNormal := by
  cases l with
  | number n => exact Value.ofNumber_isNormal n
  | _ => trivial

/-- What a reply stands for is normal. -/
theorem Prompt.accept_isNormal {p : Prompt} {r : Reply} {v : Value} (accepts : p.accept r = .ok v) :
    v.IsNormal := by
  unfold accept at accepts
  split at accepts
  case h_3 =>
    split at accepts
    · cases accepts
      trivial
    · cases accepts
  all_goals
    cases accepts
    try trivial

theorem FunctionSpec.fallback_isNormal (f : FunctionSpec) : f.fallback.IsNormal := by
  unfold fallback
  cases f.returns <;> trivial

/-! ## Defaults -/

/-- All defaults of parameters are normal. -/
def Catalog.DefaultsNormal (catalog : Catalog) : Prop :=
  ∀ f ∈ catalog.functions, ∀ p ∈ f.params, ∀ v, p.default = some v → v.IsNormal

theorem Definition.defaultOf_isNormal {place : String} {kind : ParamKind} {d : Datum} {v : Value}
    (read : defaultOf place kind d = .ok v) : v.IsNormal := by
  unfold defaultOf at read
  split at read
  · rename_i value stands
    split at read
    · cases read
      exact Value.ofDatum?_isNormal stands
    · cases read
  · cases read

/-- A catalog that has been read from a definition or comes with the library. -/
inductive Catalog.Loaded : Catalog → Prop
  | read {d : Datum} {definition : Definition} (read : Definition.ofDatum? d = .ok definition) :
    Loaded definition.catalog
  | bundled {dialect : Dialect} (bundled : dialect ∈ Dialect.bundled) :
    Loaded dialect.definition.catalog

/-- The defaults of a loaded catalog are normal. -/
theorem Catalog.Loaded.defaultsNormal {catalog : Catalog} (loaded : catalog.Loaded) :
    catalog.DefaultsNormal := by
  cases loaded with
  | read read =>
    intro f declared p inside v default
    obtain ⟨place, d, read⟩ := Definition.ofDatum?_defaultsRead read f declared p inside v default
    exact Definition.defaultOf_isNormal read
  | @bundled dialect bundled =>
    have simple : ∀ dialect ∈ Dialect.bundled, ∀ f ∈ dialect.definition.catalog.functions,
        ∀ p ∈ f.params, p.default = none ∨ p.default = some (.bool true) := by
      decide
    intro f declared p inside v default
    rcases simple dialect bundled f declared p inside with none | yes
    · cases none.symm.trans default
    · cases yes.symm.trans default
      trivial

end InstallScript
