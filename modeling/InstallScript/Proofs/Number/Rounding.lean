import InstallScript.Number.Shortest
import Mathlib.Algebra.Order.Field.Power
import Mathlib.Data.Rat.Floor
import Mathlib.Tactic.FieldSimp
import Mathlib.Tactic.Linarith
import Mathlib.Tactic.NormNum
import Mathlib.Tactic.Positivity

/-!
Rounding to double precision. The number nearest to a positive quotient has its mantissa and
exponent in the range of the format (`nearestQuotient_canonical`), and a value of the format is its
own nearest number (`nearest_scaleTwo`).

The exponent that rounding chooses is described by the interval that the quotient lies in
(`Fits`); only one exponent has that interval.
-/

namespace InstallScript

/-! ## Scaled values -/

theorem scale_eq (b : Nat) (positive : 0 < b) (m e : Int) :
    mkRat (m * b ^ e.toNat) (b ^ (-e).toNat) = (m : ℚ) * (b : ℚ) ^ e := by
  have nonzero : (b : ℚ) ≠ 0 := by positivity
  rw [Rat.mkRat_eq_div]
  push_cast
  rcases Int.le_total 0 e with above | below
  · obtain ⟨k, rfl⟩ := Int.eq_ofNat_of_zero_le above
    simp
  · obtain ⟨k, eq⟩ := Int.eq_ofNat_of_zero_le (Int.neg_nonneg_of_nonpos below)
    obtain rfl : e = -(k : Int) := by omega
    simp [div_eq_mul_inv]

theorem scaleTwo_eq (m e : Int) : scaleTwo m e = (m : ℚ) * 2 ^ e := by
  exact_mod_cast scale_eq 2 (by decide) m e

theorem scaleTen_eq (m e : Int) : scaleTen m e = (m : ℚ) * 10 ^ e := by
  exact_mod_cast scale_eq 10 (by decide) m e

theorem two_zpow_split (k : Int) : (2 : ℚ) ^ (-k).toNat * 2 ^ k = 2 ^ k.toNat := by
  rw [← zpow_natCast, ← zpow_natCast, ← zpow_add₀ (by norm_num)]
  congr 1
  omega

/-- A bound on a scaled quotient, without division. -/
theorem scaled_lt_iff {n d : Nat} (positive : 0 < d) (k : Int) (c : Nat) :
    n * 2 ^ (-k).toNat < c * (d * 2 ^ k.toNat) ↔ (n : ℚ) / d < c * 2 ^ k := by
  have dPos : (0 : ℚ) < d := by exact_mod_cast positive
  have cast : ((n * 2 ^ (-k).toNat : Nat) : ℚ) < (c * (d * 2 ^ k.toNat) : Nat) ↔
      n * 2 ^ (-k).toNat < c * (d * 2 ^ k.toNat) := by exact_mod_cast Iff.rfl
  have common : (c : ℚ) * (d * 2 ^ k.toNat) = c * 2 ^ k * d * 2 ^ (-k).toNat := by
    rw [← two_zpow_split]
    ring
  rw [← cast, div_lt_iff₀ dPos]
  push_cast
  rw [common]
  exact mul_lt_mul_iff_left₀ (by positivity)

/-- The value of a scaled quotient, without division. -/
theorem scaled_eq {n d : Nat} (positive : 0 < d) {k : Int} {c : Nat}
    (value : (n : ℚ) / d = c * 2 ^ k) : n * 2 ^ (-k).toNat = c * (d * 2 ^ k.toNat) := by
  have nonzero : (d : ℚ) ≠ 0 := by positivity
  have cast : ((n * 2 ^ (-k).toNat : Nat) : ℚ) = (c * (d * 2 ^ k.toNat) : Nat) := by
    push_cast
    rw [← two_zpow_split k, (div_eq_iff nonzero).1 value]
    ring
  exact_mod_cast cast

/-! ## The exponent of a quotient -/

/-- With this exponent the quotient has 53 binary digits before the point, or fewer at the smallest
exponent. -/
structure Fits (n d : Nat) (e : Int) : Prop where
  least : -1074 ≤ e
  below : (n : ℚ) / d < 2 ^ 53 * 2 ^ e
  above : 2 ^ 52 * 2 ^ e ≤ (n : ℚ) / d ∨ e = -1074

theorem Fits.le {n d : Nat} {e f : Int} (fits : Fits n d e) (fits' : Fits n d f) : e ≤ f := by
  by_contra less
  have larger : f + 1 ≤ e := by omega
  rcases fits.above with above | smallest
  · have power : (2 : ℚ) ^ (f + 1) ≤ 2 ^ e := zpow_le_zpow_right₀ (by norm_num) larger
    rw [zpow_add_one₀ (by norm_num)] at power
    have below := fits'.below
    linarith
  · have := fits'.least
    omega

theorem Fits.unique {n d : Nat} {e f : Int} (fits : Fits n d e) (fits' : Fits n d f) : e = f :=
  Int.le_antisymm (fits.le fits') (fits'.le fits)

/-- A quotient lies between powers of two that its numerator and denominator determine. -/
theorem quotient_bounds {n d : Nat} (nPos : 0 < n) (dPos : 0 < d) :
    2 ^ ((n.log2 : Int) - d.log2 - 1) < (n : ℚ) / d ∧
      (n : ℚ) / d < 2 ^ ((n.log2 : Int) - d.log2 + 1) := by
  have dPos' : (0 : ℚ) < d := by exact_mod_cast dPos
  have nLow : (2 : ℚ) ^ (n.log2 : Int) ≤ n := by
    exact_mod_cast Nat.log2_self_le (Nat.pos_iff_ne_zero.1 nPos)
  have nHigh : (n : ℚ) < 2 ^ ((n.log2 : Int) + 1) := by exact_mod_cast n.lt_log2_self
  have dLow : (2 : ℚ) ^ (d.log2 : Int) ≤ d := by
    exact_mod_cast Nat.log2_self_le (Nat.pos_iff_ne_zero.1 dPos)
  have dHigh : (d : ℚ) < 2 ^ ((d.log2 : Int) + 1) := by exact_mod_cast d.lt_log2_self
  constructor
  · rw [lt_div_iff₀ dPos']
    calc (2 : ℚ) ^ ((n.log2 : Int) - d.log2 - 1) * d
        < 2 ^ ((n.log2 : Int) - d.log2 - 1) * 2 ^ ((d.log2 : Int) + 1) := by gcongr
      _ = 2 ^ (n.log2 : Int) := by
          rw [← zpow_add₀ (by norm_num)]
          congr 1
          omega
      _ ≤ n := nLow
  · rw [div_lt_iff₀ dPos']
    calc (n : ℚ) < 2 ^ ((n.log2 : Int) + 1) := nHigh
      _ = 2 ^ ((n.log2 : Int) - d.log2 + 1) * 2 ^ (d.log2 : Int) := by
          rw [← zpow_add₀ (by norm_num)]
          congr 1
          omega
      _ ≤ 2 ^ ((n.log2 : Int) - d.log2 + 1) * d := by gcongr

theorem quotientExponent_fits {n d : Nat} (nPos : 0 < n) (dPos : 0 < d) :
    Fits n d (Binary64.quotientExponent n d) := by
  obtain ⟨low, high⟩ := quotient_bounds nPos dPos
  -- the exponent without the bound of the format
  obtain ⟨f, eq, below, above⟩ : ∃ f : Int, Binary64.quotientExponent n d = max f (-1074) ∧
      (n : ℚ) / d < 2 ^ 53 * 2 ^ f ∧ 2 ^ 52 * 2 ^ f ≤ (n : ℚ) / d := by
    have power (j k : Int) (c : Nat) (eq : k = c + j) : (2 : ℚ) ^ k = 2 ^ c * 2 ^ j := by
      rw [eq, zpow_add₀ (by norm_num), zpow_natCast]
    unfold Binary64.quotientExponent
    simp only [Nat.pow_eq]
    split
    · rename_i small
      rw [← Nat.one_mul (d * _), scaled_lt_iff dPos, Nat.cast_one, one_mul] at small
      refine ⟨_, rfl, ?_, ?_⟩
      · rwa [← power _ ((n.log2 : Int) - d.log2) 53 (by omega)]
      · rw [← power _ ((n.log2 : Int) - d.log2 - 1) 52 (by omega)]
        exact le_of_lt low
    · rename_i large
      rw [← Nat.one_mul (d * _), scaled_lt_iff dPos, Nat.cast_one, one_mul, not_lt] at large
      refine ⟨_, rfl, ?_, ?_⟩
      · rwa [← power _ ((n.log2 : Int) - d.log2 + 1) 53 (by omega)]
      · rwa [← power _ ((n.log2 : Int) - d.log2) 52 (by omega)]
  rw [eq]
  rcases Int.le_total (-1074) f with inside | outside
  · rw [Int.max_eq_left inside]
    exact ⟨inside, below, .inl above⟩
  · rw [Int.max_eq_right outside]
    refine ⟨Int.le_refl _, lt_of_lt_of_le below ?_, .inr rfl⟩
    gcongr
    norm_num

/-! ## Rounded quotients -/

theorem roundQuotient_mul (m : Nat) {d : Nat} (dPos : 0 < d) : roundQuotient (m * d) d = m := by
  unfold roundQuotient
  dsimp only
  rw [Nat.mul_div_cancel _ dPos, Nat.mul_mod_left, if_neg (by omega)]

theorem roundQuotient_le {n d c : Nat} (less : n < c * d) : roundQuotient n d ≤ c := by
  have quotient : n / d < c := Nat.div_lt_of_lt_mul (Nat.mul_comm c d ▸ less)
  unfold roundQuotient
  dsimp only
  split <;> omega

theorem le_roundQuotient {n d c : Nat} (dPos : 0 < d) (atLeast : c * d ≤ n) :
    c ≤ roundQuotient n d := by
  have quotient : c ≤ n / d := (Nat.le_div_iff_mul_le dPos).2 atLeast
  unfold roundQuotient
  dsimp only
  split <;> omega

namespace Binary64

theorem canonical_iff {negative : Bool} {m : Nat} {e : Int} :
    (Binary64.finite negative m e).Canonical ↔
      m < 2 ^ 53 ∧ -1074 ≤ e ∧ e ≤ 971 ∧ (2 ^ 52 ≤ m ∨ e = -1074) :=
  Iff.rfl

/-- What rounding gives is in the range of the format. -/
theorem nearestQuotient_canonical (negative : Bool) {n d : Nat} (nPos : 0 < n) (dPos : 0 < d) :
    (nearestQuotient negative n d).Canonical := by
  have fits := quotientExponent_fits nPos dPos
  unfold nearestQuotient
  simp only [Nat.pow_eq]
  generalize quotientExponent n d = e at fits ⊢
  generalize mantissa : roundQuotient (n * 2 ^ (-e).toNat) (d * 2 ^ e.toNat) = m
  have upper : m ≤ 2 ^ 53 := by
    rw [← mantissa]
    refine roundQuotient_le ((scaled_lt_iff dPos e _).2 ?_)
    push_cast
    exact fits.below
  have lower : 2 ^ 52 ≤ m ∨ e = -1074 := by
    refine fits.above.imp_left fun above => ?_
    rw [← mantissa]
    refine le_roundQuotient (by positivity) (not_lt.1 fun less => not_lt.2 above ?_)
    have := (scaled_lt_iff dPos e (2 ^ 52)).1 less
    push_cast at this
    exact this
  have least := fits.least
  by_cases carry : m = 2 ^ 53
  · rw [if_pos carry]
    dsimp only
    split
    · trivial
    · exact canonical_iff.2 ⟨by norm_num, by omega, by omega, .inl (by norm_num)⟩
  · rw [if_neg carry]
    dsimp only
    split
    · trivial
    · exact canonical_iff.2 ⟨by omega, least, by omega, lower⟩

/-- Rounding keeps the sign. -/
theorem nearestQuotient_sign (negative : Bool) (n d : Nat) :
    nearestQuotient negative n d = .infinite negative ∨
      ∃ m e, nearestQuotient negative n d = .finite negative m e := by
  unfold nearestQuotient
  simp only [Nat.pow_eq]
  generalize roundQuotient _ _ = m
  have cases (m : Nat) (e : Int) :
      (if 971 < e then Binary64.infinite negative else .finite negative m e) = .infinite negative ∨
        ∃ m' e', (if 971 < e then Binary64.infinite negative else .finite negative m e) =
          .finite negative m' e' := by
    by_cases large : 971 < e
    · exact .inl (if_pos large)
    · exact .inr ⟨m, e, if_neg large⟩
  by_cases carry : m = 2 ^ 53
  · rw [if_pos carry]
    exact cases _ _
  · rw [if_neg carry]
    exact cases _ _

/-- A quotient that is a value of the format is not changed by rounding. -/
theorem nearestQuotient_of_value {negative sign : Bool} {n d m : Nat} {e : Int} (dPos : 0 < d)
    (canonical : (Binary64.finite sign m e).Canonical) (mPos : 0 < m)
    (value : (n : ℚ) / d = m * 2 ^ e) : nearestQuotient negative n d = .finite negative m e := by
  obtain ⟨bound, least, most, normal⟩ := canonical_iff.1 canonical
  have dPos' : (0 : ℚ) < d := by exact_mod_cast dPos
  have power : (0 : ℚ) < 2 ^ e := by positivity
  have nPos : 0 < n := by
    have positive : (0 : ℚ) < n / d := by
      rw [value]
      positivity
    exact_mod_cast (div_pos_iff_of_pos_right dPos').1 positive
  have fits : Fits n d e := by
    refine ⟨least, ?_, normal.imp_left fun above => ?_⟩
    · rw [value]
      have : (m : ℚ) < 2 ^ 53 := by exact_mod_cast bound
      gcongr
    · rw [value]
      have : (2 : ℚ) ^ 52 ≤ m := by exact_mod_cast above
      gcongr
  have exponent : quotientExponent n d = e := (quotientExponent_fits nPos dPos).unique fits
  have mantissa : n * 2 ^ (-e).toNat = m * (d * 2 ^ e.toNat) := scaled_eq dPos value
  have noCarry : m ≠ 2 ^ 53 := by omega
  have finite : ¬ 971 < e := by omega
  unfold nearestQuotient
  simp only [Nat.pow_eq]
  rw [exponent, mantissa, roundQuotient_mul m (by positivity), if_neg noCarry]
  dsimp only
  rw [if_neg finite]

/-- The nearest number to a value of the format is that value. -/
theorem nearest_scaleTwo {sign : Bool} {m : Nat} {e : Int}
    (canonical : (Binary64.finite sign m e).Canonical) (mPos : 0 < m) (zeroNegative : Bool) :
    nearest zeroNegative (scaleTwo m e) = .finite false m e := by
  have value : scaleTwo m e = (m : ℚ) * 2 ^ e := scaleTwo_eq m e
  have positive : 0 < scaleTwo m e := by
    rw [value]
    positivity
  have numPos : 0 < (scaleTwo m e).num := Rat.num_pos.2 positive
  unfold nearest
  rw [if_neg (by omega), decide_eq_false (by omega)]
  refine nearestQuotient_of_value (scaleTwo m e).den_pos canonical mPos ?_
  rw [← value]
  have cast : (((scaleTwo m e).num.natAbs : Nat) : ℚ) = (scaleTwo m e).num := by
    rw [← Int.cast_natCast, Int.natAbs_of_nonneg (le_of_lt numPos)]
  rw [cast, Rat.num_div_den]

theorem nearest_canonical (zeroNegative : Bool) (x : ℚ) : (nearest zeroNegative x).Canonical := by
  unfold nearest
  split
  · exact canonical_iff.2 ⟨by norm_num, by norm_num, by norm_num, .inr rfl⟩
  · exact nearestQuotient_canonical _ (by omega) x.den_pos

end Binary64

end InstallScript
