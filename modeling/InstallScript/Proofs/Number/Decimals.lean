import InstallScript.Proofs.Number.Rounding
import Mathlib.Data.Nat.Prime.Basic

/-!
Decimals that read back. What a decimal reads as depends on its value alone (`ofDecimal_shift`), a
decimal that is equal to a value of the format reads as that value (`ofDecimal_of_value`), and so
the decimal that is chosen to show a number reads as that number (`shortest_readsBack`).
-/

namespace InstallScript

/-! ## Lengths -/

theorem decimalLength_pos (n : Nat) : 0 < decimalLength n :=
  Nat.length_toDigits_pos

theorem decimalLength_le_iff {n k : Nat} (positive : 0 < k) : decimalLength n ≤ k ↔ n < 10 ^ k :=
  Nat.length_toDigits_le_iff (by decide) positive

theorem lt_pow_decimalLength (n : Nat) : n < 10 ^ decimalLength n :=
  (decimalLength_le_iff (decimalLength_pos n)).1 (Nat.le_refl _)

theorem pow_le_of_pos {n : Nat} (positive : 0 < n) : 10 ^ (decimalLength n - 1) ≤ n := by
  by_contra less
  rcases Nat.eq_zero_or_pos (decimalLength n - 1) with short | long
  · rw [short] at less
    omega
  · have shorter := (decimalLength_le_iff long).2 (not_le.1 less)
    omega

/-- Zeros at the end make a number longer by as many digits. -/
theorem decimalLength_mul_pow {n : Nat} (positive : 0 < n) (j : Nat) :
    decimalLength (n * 10 ^ j) = decimalLength n + j := by
  have lengthPos := decimalLength_pos n
  apply Nat.le_antisymm
  · rw [decimalLength_le_iff (by omega), Nat.pow_add]
    exact Nat.mul_lt_mul_of_pos_right (lt_pow_decimalLength n) (by positivity)
  · by_contra less
    have bound : n * 10 ^ j < 10 ^ (decimalLength n + j - 1) :=
      (decimalLength_le_iff (by have := decimalLength_pos (n * 10 ^ j); omega)).1 (by omega)
    rw [show decimalLength n + j - 1 = decimalLength n - 1 + j by omega, Nat.pow_add] at bound
    have := pow_le_of_pos positive
    exact absurd (Nat.lt_of_mul_lt_mul_right bound) (by omega)

/-! ## What decimals read as -/

namespace Binary64

/-- Zeros at the end of the digits are the same as a larger exponent. -/
theorem ofDecimal_shift (negative : Bool) (n j : Nat) (e : Int) :
    ofDecimal negative ⟨n * 10 ^ j, e - j⟩ = ofDecimal negative ⟨n, e⟩ := by
  rcases Nat.eq_zero_or_pos n with rfl | positive
  · unfold ofDecimal
    simp
  have value : (⟨n * 10 ^ j, e - j⟩ : Decimal).toRat = (⟨n, e⟩ : Decimal).toRat := by
    unfold Decimal.toRat
    rw [scaleTen_eq, scaleTen_eq, zpow_sub₀ (by norm_num), zpow_natCast]
    push_cast
    field_simp
  have magnitude : ((decimalLength (n * 10 ^ j) : Nat) : Int) + (e - j) = decimalLength n + e := by
    rw [decimalLength_mul_pow positive]
    omega
  have nonzero : n * 10 ^ j = 0 ↔ n = 0 := by simp
  unfold ofDecimal
  dsimp only
  simp only [value, magnitude, nonzero]

theorem ofDecimal_canonical (negative : Bool) (d : Decimal) : (ofDecimal negative d).Canonical := by
  unfold ofDecimal
  dsimp only
  split
  · exact ⟨by norm_num, by norm_num, by norm_num, .inr rfl⟩
  · split
    · trivial
    · exact nearest_canonical _ _

/-- No sign, no negative number. -/
theorem ofDecimal_false (d : Decimal) :
    ofDecimal false d = .infinite false ∨ ∃ m e, ofDecimal false d = .finite false m e := by
  have nonnegative : 0 ≤ d.toRat := by
    rw [Decimal.toRat, scaleTen_eq]
    positivity
  unfold ofDecimal
  dsimp only
  split
  · exact .inr ⟨_, _, rfl⟩
  split
  · exact .inl rfl
  rw [if_neg Bool.false_ne_true]
  unfold nearest
  split
  · exact .inr ⟨_, _, rfl⟩
  have numNonneg : ¬ d.toRat.num < 0 := not_lt.2 (Rat.num_nonneg.2 nonnegative)
  rw [decide_eq_false numNonneg]
  exact nearestQuotient_sign false _ _

/-- Below the largest exponent of decimals that are computed. -/
theorem two_pow_lt_large : 2 ^ 1024 < 10 ^ 310 := by decide +kernel

/-- Above the smallest one. -/
theorem two_pow_lt_small : 2 ^ 1074 < 10 ^ 330 := by decide +kernel

/-- A decimal that is equal to a value of the format reads as that value. -/
theorem ofDecimal_of_value {sign : Bool} {m : Nat} {e : Int} {d : Decimal}
    (canonical : (Binary64.finite sign m e).Canonical) (mPos : 0 < m)
    (value : d.toRat = scaleTwo m e) : ofDecimal false d = .finite false m e := by
  obtain ⟨bound, least, most, -⟩ := id canonical
  have digits : d.toRat = (d.digits : ℚ) * 10 ^ d.exponent := scaleTen_eq _ _
  have binary : scaleTwo m e = (m : ℚ) * 2 ^ e := scaleTwo_eq _ _
  have same : (d.digits : ℚ) * 10 ^ d.exponent = m * 2 ^ e := by rw [← digits, value, binary]
  have power : (0 : ℚ) < 10 ^ d.exponent := by positivity
  have mPos' : (1 : ℚ) ≤ m := by exact_mod_cast mPos
  have low : (2 : ℚ) ^ (-1074 : Int) ≤ m * 2 ^ e :=
    calc (2 : ℚ) ^ (-1074 : Int) ≤ 2 ^ e := zpow_le_zpow_right₀ (by norm_num) least
      _ ≤ m * 2 ^ e := le_mul_of_one_le_left (by positivity) mPos'
  have high : (m : ℚ) * 2 ^ e < 2 ^ (1024 : Int) := by
    have bound' : (m : ℚ) < 2 ^ 53 := by exact_mod_cast bound
    calc (m : ℚ) * 2 ^ e < 2 ^ 53 * 2 ^ e := by gcongr
      _ ≤ 2 ^ 53 * 2 ^ (971 : Int) := by gcongr; norm_num
      _ = 2 ^ (1024 : Int) := by
          rw [← zpow_natCast, ← zpow_add₀ (by norm_num)]
          congr 1
  have nonzero : d.digits ≠ 0 := by
    intro zero
    rw [zero, Nat.cast_zero, zero_mul] at same
    have : (0 : ℚ) < 2 ^ (-1074 : Int) := by positivity
    linarith
  have upper : (d.digits : ℚ) * 10 ^ d.exponent < 10 ^ (decimalLength d.digits + d.exponent) := by
    have := lt_pow_decimalLength d.digits
    have cast : (d.digits : ℚ) < 10 ^ decimalLength d.digits := by exact_mod_cast this
    rw [zpow_add₀ (by norm_num), zpow_natCast]
    gcongr
  have lower : (10 : ℚ) ^ (decimalLength d.digits + d.exponent - 1) ≤
      d.digits * 10 ^ d.exponent := by
    have := pow_le_of_pos (Nat.pos_of_ne_zero nonzero)
    have cast : (10 : ℚ) ^ (decimalLength d.digits - 1) ≤ d.digits := by exact_mod_cast this
    have lengthPos := decimalLength_pos d.digits
    rw [show (decimalLength d.digits : Int) + d.exponent - 1 =
      (decimalLength d.digits - 1 : Nat) + d.exponent by omega, zpow_add₀ (by norm_num),
      zpow_natCast]
    gcongr
  have notTiny : ¬ (decimalLength d.digits + d.exponent < -330) := by
    intro tiny
    have : (10 : ℚ) ^ (decimalLength d.digits + d.exponent) ≤ 10 ^ (-330 : Int) :=
      zpow_le_zpow_right₀ (by norm_num) (by omega)
    have : (10 : ℚ) ^ (-330 : Int) < 2 ^ (-1074 : Int) := by
      rw [zpow_neg, zpow_neg]
      exact inv_strictAnti₀ (by positivity) (by exact_mod_cast two_pow_lt_small)
    linarith
  have notHuge : ¬ 310 < decimalLength d.digits + d.exponent := by
    intro huge
    refine absurd ?_ (lt_irrefl ((10 : ℚ) ^ (310 : Int)))
    calc (10 : ℚ) ^ (310 : Int) ≤ 10 ^ (decimalLength d.digits + d.exponent - 1) :=
          zpow_le_zpow_right₀ (by norm_num) (by omega)
      _ ≤ d.digits * 10 ^ d.exponent := lower
      _ = m * 2 ^ e := same
      _ < 2 ^ (1024 : Int) := high
      _ < 10 ^ (310 : Int) := by exact_mod_cast two_pow_lt_large
  unfold ofDecimal
  dsimp only
  rw [if_neg (by simp only [nonzero, notTiny, or_self, not_false_iff]), if_neg notHuge,
    if_neg Bool.false_ne_true, value]
  exact nearest_scaleTwo canonical mPos false

end Binary64

/-! ## The decimal that is shown -/

namespace Decimal

/-- A value whose denominator is a power of two is shown exactly. -/
theorem exact_toRat {x : ℚ} {j : Nat} (nonnegative : 0 ≤ x) (den : x.den = 2 ^ j) :
    (exact x).toRat = x := by
  have whole : x * (10 : ℚ) ^ j = ((x.num * 5 ^ j : Int) : ℚ) := by
    have split : x = x.num / 2 ^ j := by
      conv_lhs => rw [← Rat.num_div_den x, den]
      push_cast
      rfl
    have ten : (10 : ℚ) ^ j = 2 ^ j * 5 ^ j := by
      rw [← mul_pow]
      norm_num
    rw [ten]
    conv_lhs => rw [split]
    push_cast
    field_simp
  have numNonneg : 0 ≤ x.num * 5 ^ j := mul_nonneg (Rat.num_nonneg.2 nonnegative) (by positivity)
  have places : x.den.log2 = j := by rw [den, Nat.log2_two_pow]
  unfold exact toRat
  dsimp only
  rw [places, whole, Rat.floor_intCast, Int.toNat_of_nonneg numNonneg, scaleTen_eq, ← whole,
    zpow_neg, zpow_natCast]
  field_simp

theorem scaleTwo_den (m e : Int) : ∃ j, (scaleTwo m e).den = 2 ^ j := by
  have divides : (scaleTwo m e).den ∣ 2 ^ (-e).toNat := by
    rw [scaleTwo, Nat.pow_eq, Rat.den_mkRat, if_neg (by positivity)]
    exact Nat.div_dvd_of_dvd (Nat.gcd_dvd_left _ _)
  obtain ⟨j, -, eq⟩ := (Nat.dvd_prime_pow Nat.prime_two).1 divides
  exact ⟨j, eq⟩

/-- A candidate reads back. -/
theorem candidate_readsBack {target : Binary64} {x : ℚ} {length : Nat} {d : Decimal}
    (found : candidate? target x length = some d) : Binary64.ofDecimal false d = target := by
  unfold candidate? at found
  dsimp only at found
  split at found
  · rename_i reads _
    cases found
    exact of_decide_eq_true reads
  · rename_i _ reads
    cases found
    exact of_decide_eq_true reads
  · cases found
  · rename_i reads reads'
    split at found
    · cases found
      exact of_decide_eq_true reads
    · cases found
      exact of_decide_eq_true reads'

/-- The decimal that shows a positive number reads as that number. -/
theorem shortest_readsBack {sign : Bool} {m : Nat} {e : Int}
    (canonical : (Binary64.finite sign m e).Canonical) (mPos : 0 < m) :
    Binary64.ofDecimal false (shortest m e) = .finite false m e := by
  unfold shortest
  dsimp only
  cases found : (List.range 17).findSome? fun n =>
      candidate? (.finite false m e) (scaleTwo m e) (n + 1) with
  | some d =>
    obtain ⟨n, -, candidate⟩ := List.exists_of_findSome?_eq_some found
    exact candidate_readsBack candidate
  | none =>
    obtain ⟨j, den⟩ := scaleTwo_den m e
    have nonnegative : 0 ≤ scaleTwo m e := by
      rw [scaleTwo_eq]
      positivity
    exact Binary64.ofDecimal_of_value canonical mPos (exact_toRat nonnegative den)

theorem shortest_digits_pos {sign : Bool} {m : Nat} {e : Int}
    (canonical : (Binary64.finite sign m e).Canonical) (mPos : 0 < m) :
    0 < (shortest m e).digits := by
  apply Nat.pos_of_ne_zero
  intro zero
  have reads := shortest_readsBack canonical mPos
  rw [Binary64.ofDecimal, if_pos (.inl zero)] at reads
  injection reads with _ mantissa
  omega

end Decimal

end InstallScript
