import InstallScript.Proofs.Number.Overflow

/-!
Arithmetic on whole numbers. Sums, differences, products and remainders are exact, whatever the size
of the operands. A quotient goes through double precision: where the division leaves no rest, it is
exact if double precision holds the quotient (`Binary64.Holds`), and otherwise it is another whole
number close to it, or too large (`Value.whole_arithmetic`).
-/

namespace InstallScript

/-! ## How far rounding goes -/

/-- Rounding to a whole number goes at most half of the way to the next one. -/
theorem roundQuotient_close (n : Nat) {d : Nat} (dPos : 0 < d) :
    2 * (roundQuotient n d * d) ≤ 2 * n + d ∧ 2 * n ≤ 2 * (roundQuotient n d * d) + d := by
  have split : n = d * (n / d) + n % d := (Nat.div_add_mod n d).symm
  have rest : n % d < d := Nat.mod_lt n dPos
  unfold roundQuotient
  dsimp only
  generalize n / d = q at split ⊢
  generalize n % d = r at split rest ⊢
  subst split
  split
  · rename_i up
    rw [Nat.add_mul, Nat.one_mul, Nat.mul_comm q d]
    omega
  · rename_i down
    rw [Nat.mul_comm q d]
    omega

namespace Binary64

/-- The nearest number to a quotient is at most half a place away from it. -/
theorem nearestQuotient_close {negative sign : Bool} {n d m : Nat} {e : Int} (dPos : 0 < d)
    (rounded : nearestQuotient negative n d = .finite sign m e) :
    2 * |(m : ℚ) * 2 ^ e - n / d| ≤ 2 ^ quotientExponent n d := by
  unfold nearestQuotient at rounded
  simp only [Nat.pow_eq] at rounded
  generalize quotientExponent n d = f at rounded ⊢
  obtain ⟨below, above⟩ := roundQuotient_close (n * 2 ^ (-f).toNat) (d := d * 2 ^ f.toNat)
    (by positivity)
  generalize roundQuotient (n * 2 ^ (-f).toNat) (d * 2 ^ f.toNat) = k at rounded below above
  -- a carry moves the point and leaves the value
  have value : (m : ℚ) * 2 ^ e = k * 2 ^ f := by
    by_cases carry : k = 2 ^ 53
    · rw [if_pos carry] at rounded
      dsimp only at rounded
      split at rounded
      · cases rounded
      · cases rounded
        rw [carry, zpow_add_one₀ (by norm_num)]
        push_cast
        ring
    · rw [if_neg carry] at rounded
      dsimp only at rounded
      split at rounded
      · cases rounded
      · cases rounded
        rfl
  have dPos' : (0 : ℚ) < d := by exact_mod_cast dPos
  have scale : (0 : ℚ) < 2 ^ (-f).toNat := by positivity
  have common (c : ℚ) : c * (d * 2 ^ f.toNat) = c * 2 ^ f * d * 2 ^ (-f).toNat := by
    rw [← two_zpow_split]
    ring
  have quotient : (n : ℚ) / d * d = n := div_mul_cancel₀ _ (ne_of_gt dPos')
  have below' : 2 * ((k : ℚ) * (d * 2 ^ f.toNat)) ≤ 2 * (n * 2 ^ (-f).toNat) + d * 2 ^ f.toNat := by
    exact_mod_cast below
  have above' : 2 * ((n : ℚ) * 2 ^ (-f).toNat) ≤ 2 * (k * (d * 2 ^ f.toNat)) + d * 2 ^ f.toNat := by
    exact_mod_cast above
  have unit := common 1
  rw [one_mul, one_mul] at unit
  rw [common, unit, ← quotient] at below' above'
  rw [value]
  generalize (2 : ℚ) ^ f = p at *
  have cancel {x y : ℚ} (le : x * (d * 2 ^ (-f).toNat) ≤ y * (d * 2 ^ (-f).toNat)) : x ≤ y :=
    le_of_mul_le_mul_right le (by positivity)
  have low : 2 * ((k : ℚ) * p) ≤ 2 * (n / d) + p := cancel (by linarith only [below'])
  have high : 2 * ((n : ℚ) / d) ≤ 2 * (k * p) + p := cancel (by linarith only [above'])
  rw [← abs_two, ← abs_mul, abs_le]
  constructor
  · linarith only [high]
  · linarith only [low]

/-! ## Whole numbers in double precision -/

/-- Double precision holds a whole number if at most 53 binary digits of it count and it is not too
large. -/
def Holds (n : Int) : Prop :=
  ∃ m e : Nat, n.natAbs = m * 2 ^ e ∧ m < 2 ^ 53 ∧ e ≤ 971

/-- All whole numbers up to `2 ^ 53` are held. -/
theorem holds_of_le {n : Int} (small : n.natAbs ≤ 2 ^ 53) : Holds n := by
  rcases Nat.lt_or_eq_of_le small with less | eq
  · exact ⟨n.natAbs, 0, (Nat.mul_one _).symm, less, by omega⟩
  · exact ⟨1, 53, by omega, by norm_num, by omega⟩

/-- A number is equal to a whole number if its exact value is. -/
theorem toInt?_eq_some_iff {x : Binary64} {n : Int} :
    x.toInt? = some n ↔ x.toRat? = some (n : ℚ) := by
  unfold toInt?
  cases x.toRat? with
  | none => exact iff_of_false nofun nofun
  | some r =>
    dsimp only
    rw [Option.some_inj]
    split
    · rename_i whole
      have value : (r.num : ℚ) = r := Rat.coe_int_num_of_den_eq_one whole
      rw [Option.some_inj]
      constructor
      · intro eq
        rw [← eq, value]
      · intro eq
        rw [eq, Rat.num_intCast]
    · rename_i broken
      refine iff_of_false nofun ?_
      rintro rfl
      exact broken (Rat.den_intCast n)

/-- The whole number that a finite number is equal to, for a sign that goes with it. -/
theorem toInt?_finite {n : Int} {m : Nat} {e : Int} :
    (finite (n < 0) m e).toInt? = some n ↔ (m : ℚ) * 2 ^ e = n.natAbs := by
  rw [toInt?_eq_some_iff]
  show some (scaleTwo (if decide (n < 0) = true then -m else m) e) = some _ ↔ _
  have value : (n.natAbs : ℚ) = |(n : ℚ)| := by rw [Nat.cast_natAbs, Int.cast_abs]
  rw [Option.some_inj, scaleTwo_eq, value]
  by_cases negative : n < 0
  · have below : (n : ℚ) < 0 := by exact_mod_cast negative
    rw [if_pos (decide_eq_true negative), abs_of_neg below, Int.cast_neg, neg_mul, Int.cast_natCast,
      neg_eq_iff_eq_neg]
  · have above : (0 : ℚ) ≤ n := by exact_mod_cast not_lt.1 negative
    rw [if_neg (by simpa using negative), abs_of_nonneg above, Int.cast_natCast]

theorem nearest_int {n : Int} (nonzero : n ≠ 0) (zeroNegative : Bool) :
    nearest zeroNegative (n : ℚ) = nearestQuotient (n < 0) n.natAbs 1 := by
  unfold nearest
  rw [Rat.num_intCast, Rat.den_intCast, if_neg nonzero]

/-- What double precision holds is the value of one of its numbers. -/
theorem Holds.canonical {n : Int} (holds : Holds n) (nonzero : n ≠ 0) (sign : Bool) :
    ∃ m e, (finite sign m e).Canonical ∧ 0 < m ∧ (m : ℚ) * 2 ^ e = n.natAbs := by
  obtain ⟨k, f, eq, bound, most⟩ := holds
  have pos : n.natAbs ≠ 0 := Int.natAbs_ne_zero.2 nonzero
  have low := Nat.log2_self_le pos
  have high := n.natAbs.lt_log2_self
  generalize n.natAbs.log2 = l at low high
  rcases Nat.lt_or_ge l 53 with short | long
  · -- the digits are moved up to the first place
    refine ⟨n.natAbs * 2 ^ (52 - l), (l : Int) - 52, canonical_iff.2 ?_, by positivity, ?_⟩
    · have bits : 2 ^ (l + 1) * 2 ^ (52 - l) = 2 ^ 53 := by
        rw [← pow_add]
        congr 1
        omega
      have bits' : 2 ^ l * 2 ^ (52 - l) = 2 ^ 52 := by
        rw [← pow_add]
        congr 1
        omega
      refine ⟨?_, by omega, by omega, .inl ?_⟩
      · exact lt_of_lt_of_eq (Nat.mul_lt_mul_of_pos_right high (by positivity)) bits
      · exact le_of_eq_of_le bits'.symm (Nat.mul_le_mul_right _ low)
    · push_cast
      rw [mul_assoc, ← zpow_natCast, ← zpow_add₀ (by norm_num)]
      have none : ((52 - l : Nat) : Int) + ((l : Int) - 52) = 0 := by omega
      rw [none, zpow_zero, mul_one]
  · -- all digits behind the first 53 are zeros
    have reach : n.natAbs < 2 ^ (53 + f) := by
      rw [eq, pow_add]
      exact Nat.mul_lt_mul_of_pos_right bound (by positivity)
    have within : l < 53 + f :=
      (Nat.pow_lt_pow_iff_right (by norm_num)).1 (lt_of_le_of_lt low reach)
    have split : n.natAbs = k * 2 ^ (52 + f - l) * 2 ^ (l - 52) := by
      rw [eq, mul_assoc, ← pow_add]
      congr 2
      omega
    have bits : 2 ^ 53 * 2 ^ (l - 52) = 2 ^ (l + 1) := by
      rw [← pow_add]
      congr 1
      omega
    have bits' : 2 ^ 52 * 2 ^ (l - 52) = 2 ^ l := by
      rw [← pow_add]
      congr 1
      omega
    refine ⟨k * 2 ^ (52 + f - l), (l - 52 : Nat), canonical_iff.2 ?_, ?_, ?_⟩
    · refine ⟨?_, by omega, by omega, .inl ?_⟩
      · refine Nat.lt_of_mul_lt_mul_right (a := 2 ^ (l - 52)) ?_
        rw [← split, bits]
        exact high
      · refine Nat.le_of_mul_le_mul_right (c := 2 ^ (l - 52)) ?_ (by positivity)
        rw [← split, bits']
        exact low
    · refine Nat.pos_of_ne_zero fun zero => pos ?_
      rw [split, zero, Nat.zero_mul]
    · rw [zpow_natCast]
      exact_mod_cast split.symm

/-- A value of the format that is whole is held. -/
theorem holds_of_value {n : Int} {sign : Bool} {m : Nat} {e : Int}
    (canonical : (finite sign m e).Canonical) (value : (m : ℚ) * 2 ^ e = n.natAbs) : Holds n := by
  obtain ⟨bound, -, most, -⟩ := canonical_iff.1 canonical
  rcases Int.le_total 0 e with above | below
  · obtain ⟨k, rfl⟩ := Int.eq_ofNat_of_zero_le above
    refine ⟨m, k, ?_, bound, by omega⟩
    rw [zpow_natCast] at value
    exact_mod_cast value.symm
  · have shrinks : (n.natAbs : ℚ) ≤ m := by
      rw [← value]
      exact mul_le_of_le_one_right (Nat.cast_nonneg m) (zpow_le_one_of_nonpos₀ (by norm_num) below)
    have small : n.natAbs ≤ m := by exact_mod_cast shrinks
    exact holds_of_le (by omega)

/-- A whole number is its own nearest number exactly if it is held. -/
theorem nearest_exact_iff {n : Int} (zeroNegative : Bool) :
    (nearest zeroNegative (n : ℚ)).toInt? = some n ↔ Holds n := by
  rcases eq_or_ne n 0 with rfl | nonzero
  · refine iff_of_true ?_ (holds_of_le (by norm_num))
    have zero : ((0 : Int) : ℚ).num = 0 := Rat.num_intCast 0
    rw [toInt?_eq_some_iff, nearest, if_pos zero]
    show some (scaleTwo _ _) = _
    rw [scaleTwo_eq]
    cases zeroNegative <;> simp
  rw [nearest_int nonzero]
  constructor
  · intro exact
    rcases nearestQuotient_sign (decide (n < 0)) n.natAbs 1 with infinite | ⟨m, e, finite⟩
    · rw [infinite] at exact
      cases exact
    · have canonical := nearestQuotient_canonical (decide (n < 0)) (Int.natAbs_pos.2 nonzero)
        Nat.one_pos
      rw [finite] at exact canonical
      exact holds_of_value canonical (toInt?_finite.1 exact)
  · intro holds
    obtain ⟨m, e, canonical, mPos, value⟩ := holds.canonical nonzero (decide (n < 0))
    have quotient : ((n.natAbs : Nat) : ℚ) / (1 : Nat) = m * 2 ^ e := by
      rw [Nat.cast_one, div_one, value]
    rw [nearestQuotient_of_value Nat.one_pos canonical mPos quotient]
    exact toInt?_finite.2 value

/-- A whole number of more than 53 binary digits is rounded to a whole number. -/
theorem nearestQuotient_whole {negative sign : Bool} {n m : Nat} {e : Int} (large : 2 ^ 53 < n)
    (rounded : nearestQuotient negative n 1 = .finite sign m e) :
    ∃ k : Nat, e = k ∧ 2 ^ 53 * |((m * 2 ^ k : Nat) : Int) - n| ≤ n := by
  have canonical := nearestQuotient_canonical negative (Nat.zero_lt_of_lt large) Nat.one_pos
  have close := nearestQuotient_close Nat.one_pos rounded
  have fits := quotientExponent_fits (Nat.zero_lt_of_lt large) Nat.one_pos
  rw [rounded] at canonical
  obtain ⟨digits, -, -, -⟩ := canonical_iff.1 canonical
  generalize quotientExponent n 1 = f at close fits
  have below := fits.below
  rw [Nat.cast_one, div_one] at close below
  have large' : (2 : ℚ) ^ 53 < n := by exact_mod_cast large
  have wide : 1 ≤ f := by
    by_contra narrow
    have power : (2 : ℚ) ^ f ≤ 1 := zpow_le_one_of_nonpos₀ (by norm_num) (by omega)
    linarith only [large', below, power]
  have above := fits.above.resolve_right (by omega)
  rw [Nat.cast_one, div_one] at above
  -- with a fraction, the value would be too small
  have whole : 0 ≤ e := by
    by_contra broken
    have two : (2 : ℚ) ≤ 2 ^ f := by
      rw [← zpow_one (2 : ℚ)]
      exact zpow_le_zpow_right₀ (by norm_num) wide
    have power : (2 : ℚ) ^ e ≤ 1 / 2 := by
      rw [one_div, ← zpow_neg_one]
      exact zpow_le_zpow_right₀ (by norm_num) (by omega)
    have half : (m : ℚ) * 2 ^ e ≤ m * (1 / 2) :=
      mul_le_mul_of_nonneg_left power (Nat.cast_nonneg m)
    have digits' : (m : ℚ) < 2 ^ 53 := by exact_mod_cast digits
    have least := neg_abs_le ((m : ℚ) * 2 ^ e - n)
    linarith only [digits', half, least, close, above, two]
  obtain ⟨k, rfl⟩ := Int.eq_ofNat_of_zero_le whole
  rw [zpow_natCast] at close
  have distance : 2 ^ 53 * |(m : ℚ) * 2 ^ k - n| ≤ n := by linarith only [close, above]
  exact ⟨k, rfl, by exact_mod_cast distance⟩

/-- The nearest number to a whole number that is not held is another whole number, and differs from
it by no more than a part in `2 ^ 53`. -/
theorem nearest_of_not_holds {n : Int} (unheld : ¬ Holds n) (small : n.natAbs < bound)
    (zeroNegative : Bool) : ∃ k, (nearest zeroNegative (n : ℚ)).toInt? = some k ∧ k ≠ n ∧
      2 ^ 53 * |k - n| ≤ |n| := by
  have nonzero : n ≠ 0 := by
    rintro rfl
    exact unheld (holds_of_le (by norm_num))
  have large : 2 ^ 53 < n.natAbs := not_le.1 fun le => unheld (holds_of_le le)
  have inexact := mt (nearest_exact_iff zeroNegative).1 unheld
  rw [nearest_int nonzero] at inexact ⊢
  rcases nearestQuotient_sign (decide (n < 0)) n.natAbs 1 with infinite | ⟨m, e, rounded⟩
  · rw [nearestQuotient_infinite_iff _ (Int.natAbs_pos.2 nonzero) Nat.one_pos, Nat.cast_one,
      div_one, Nat.cast_le] at infinite
    omega
  obtain ⟨k, rfl, close⟩ := nearestQuotient_whole large rounded
  rw [rounded] at inexact ⊢
  have value : (finite (n < 0) m k).toInt? = some ((if n < 0 then -(m : Int) else m) * 2 ^ k) := by
    rw [toInt?_eq_some_iff]
    show some (scaleTwo _ _) = _
    rw [scaleTwo_eq, zpow_natCast]
    simp only [decide_eq_true_eq, Int.cast_mul, Int.cast_pow, Int.cast_ofNat]
  have distance : |(if n < 0 then -(m : Int) else m) * 2 ^ k - n| =
      |((m * 2 ^ k : Nat) : Int) - n.natAbs| := by
    rw [Nat.cast_mul, Nat.cast_pow, Nat.cast_ofNat]
    by_cases negative : n < 0
    · rw [if_pos negative, Int.ofNat_natAbs_of_nonpos (le_of_lt negative), neg_mul, ← abs_neg]
      congr 1
      ring
    · rw [if_neg negative, Int.natAbs_of_nonneg (not_lt.1 negative)]
  refine ⟨_, value, fun eq => inexact (value.trans (congrArg some eq)), ?_⟩
  rw [distance, Int.abs_eq_natAbs n]
  exact close

end Binary64

/-! ## The operators on whole numbers -/

/-- A remainder lies between zero and the divisor. -/
theorem fmod_between (a : Int) {b : Int} (nonzero : b ≠ 0) :
    |a.fmod b| < |b| ∧ (a.fmod b = 0 ∨ (a.fmod b).sign = b.sign) := by
  have positive (a : Int) {b : Int} (pos : 0 < b) :
      |a.fmod b| < |b| ∧ (a.fmod b = 0 ∨ (a.fmod b).sign = b.sign) := by
    have low := Int.fmod_nonneg_of_pos a pos
    rw [abs_of_nonneg low, abs_of_pos pos, Int.sign_eq_one_of_pos pos]
    refine ⟨Int.fmod_lt_of_pos a pos, ?_⟩
    rcases Int.lt_or_eq_of_le low with above | zero
    · exact .inr (Int.sign_eq_one_of_pos above)
    · exact .inl zero.symm
  rcases lt_or_gt_of_ne nonzero with below | above
  · have turned := positive (-a) (Int.neg_pos_of_neg below)
    rwa [Int.neg_fmod_neg, abs_neg, abs_neg, neg_eq_zero, Int.sign_neg, Int.sign_neg,
      neg_inj] at turned
  · exact positive a above

namespace Number

theorem div_int (a b : Int) : (Number.int a).div (.int b) =
    match Binary64.nearest false (mkRat (if b < 0 then -a else a) b.natAbs) with
    | .infinite _ => .error .quotient
    | x => .ok (.float x) :=
  rfl

/-- A quotient of whole numbers that leaves no rest is the nearest number to it. -/
theorem div_multiple (q : Int) {b : Int} (nonzero : b ≠ 0) :
    (Number.int (q * b)).div (.int b) =
      match Binary64.nearest false (q : ℚ) with
      | .infinite _ => .error .quotient
      | x => .ok (.float x) := by
  have value : mkRat (if b < 0 then -(q * b) else q * b) b.natAbs = (q : ℚ) := by
    have nonzero' : (b : ℚ) ≠ 0 := by exact_mod_cast nonzero
    rw [Rat.mkRat_eq_div, Nat.cast_natAbs]
    by_cases negative : b < 0
    · rw [if_pos negative, abs_of_neg negative]
      push_cast
      rw [neg_div_neg_eq, mul_div_cancel_right₀ _ nonzero']
    · rw [if_neg negative, abs_of_nonneg (not_lt.1 negative)]
      push_cast
      rw [mul_div_cancel_right₀ _ nonzero']
  rw [div_int, value]

end Number

namespace Value

theorem apply_slash_int {a b : Int} (nonzero : b ≠ 0) :
    apply .slash (.ofInt a) (.ofInt b) = ofComputed ((Number.int a).div (.int b)) := by
  show (if (Number.int b).isZero then _ else _) = _
  rw [(Number.isZero_int b).2 nonzero]
  rfl

theorem ofNumber_of_toInt? {x : Binary64} {k : Int} (whole : x.toInt? = some k) :
    ofNumber (.float x) = .ofInt k := by
  unfold ofNumber Number.normalize
  dsimp only
  rw [whole]
  rfl

/-- A quotient of whole numbers that leaves no rest, if its nearest number is whole. -/
theorem apply_slash_multiple {q k b : Int} (nonzero : b ≠ 0)
    (nearest : (Binary64.nearest false (q : ℚ)).toInt? = some k) :
    apply .slash (.ofInt (q * b)) (.ofInt b) = .ok (.ofInt k) := by
  rw [apply_slash_int nonzero, Number.div_multiple q nonzero]
  generalize Binary64.nearest false (q : ℚ) = x at nearest
  cases x with
  | infinite negative => cases nearest
  | nan => cases nearest
  | finite negative m e => exact congrArg Except.ok (ofNumber_of_toInt? nearest)

theorem apply_percent_int {a b : Int} (nonzero : b ≠ 0) :
    apply .percent (.ofInt a) (.ofInt b) = .ok (.ofInt (a.fmod b)) := by
  show (if (Number.int b).isZero then _ else _) = _
  rw [(Number.isZero_int b).2 nonzero]
  rfl

/-- Sums, differences, products and remainders of whole numbers are exact. A quotient without rest
is exact if double precision holds it; otherwise it is another whole number close to the quotient,
or too large. -/
theorem whole_arithmetic (a b : Int) :
    apply .plus (.ofInt a) (.ofInt b) = .ok (.ofInt (a + b)) ∧
    apply .minus (.ofInt a) (.ofInt b) = .ok (.ofInt (a - b)) ∧
    apply .star (.ofInt a) (.ofInt b) = .ok (.ofInt (a * b)) ∧
    (b ≠ 0 → ∃ r, apply .percent (.ofInt a) (.ofInt b) = .ok (.ofInt r) ∧
      b ∣ a - r ∧ |r| < |b| ∧ (r = 0 ∨ r.sign = b.sign)) ∧
    (b ≠ 0 → ∀ q, a = q * b →
      (Binary64.Holds q → apply .slash (.ofInt a) (.ofInt b) = .ok (.ofInt q)) ∧
      (¬ Binary64.Holds q → q.natAbs < Binary64.bound → ∃ k,
        apply .slash (.ofInt a) (.ofInt b) = .ok (.ofInt k) ∧ k ≠ q ∧ 2 ^ 53 * |k - q| ≤ |q|) ∧
      (Binary64.bound ≤ q.natAbs →
        apply .slash (.ofInt a) (.ofInt b) = .error (.overflow .quotient))) := by
  refine ⟨rfl, rfl, rfl, fun nonzero => ?remainder, fun nonzero q multiple => ?quotient⟩
  case remainder =>
    refine ⟨a.fmod b, apply_percent_int nonzero, ⟨a.fdiv b, ?_⟩, fmod_between a nonzero⟩
    rw [sub_eq_iff_eq_add, Int.mul_fdiv_add_fmod]
  case quotient =>
    subst multiple
    refine ⟨fun holds => ?_, fun unheld small => ?_, fun large => ?_⟩
    · exact apply_slash_multiple nonzero ((Binary64.nearest_exact_iff false).2 holds)
    · obtain ⟨k, nearest, other, close⟩ := Binary64.nearest_of_not_holds unheld small false
      exact ⟨k, apply_slash_multiple nonzero nearest, other, close⟩
    · have infinite : ∃ negative, Binary64.nearest false (q : ℚ) = .infinite negative := by
        rw [Binary64.nearest_infinite_iff, ← Int.cast_abs, ← Nat.cast_natAbs, Nat.cast_le]
        exact large
      obtain ⟨negative, infinite⟩ := infinite
      rw [apply_slash_int nonzero, Number.div_multiple q nonzero, infinite]
      rfl

theorem whole_arithmetic_between : ∃ r k,
    apply .percent (.ofInt 7) (.ofInt (-2)) = .ok (.ofInt r) ∧ |r| < 2 ∧
    apply .slash (.ofInt 6) (.ofInt 2) = .ok (.ofInt 3) ∧
    apply .slash (.ofInt (9007199254740993 * 3)) (.ofInt 3) = .ok (.ofInt k) ∧
      k ≠ 9007199254740993 ∧
    apply .slash (.ofInt (Binary64.bound * 3)) (.ofInt 3) = .error (.overflow .quotient) := by
  have held : Binary64.Holds 3 := Binary64.holds_of_le (by norm_num)
  have unheld : ¬ Binary64.Holds 9007199254740993 := by
    rintro ⟨m, e, eq, digits, -⟩
    have odd : 9007199254740993 = m * 2 ^ e := eq
    cases e with
    | zero => omega
    | succ e =>
      rw [pow_succ, ← mul_assoc] at odd
      omega
  have small : (9007199254740993 : Int).natAbs < Binary64.bound :=
    lt_of_lt_of_le (by norm_num) (Nat.le_mul_of_pos_right (2 ^ 54 - 1) (by positivity))
  obtain ⟨-, -, -, remainder, -⟩ := whole_arithmetic 7 (-2)
  obtain ⟨r, percent, -, less, -⟩ := remainder (by decide)
  obtain ⟨-, -, -, -, quotient⟩ := whole_arithmetic 6 2
  obtain ⟨-, -, -, -, quotient'⟩ := whole_arithmetic (9007199254740993 * 3) 3
  obtain ⟨k, slash, other, -⟩ := (quotient' (by decide) _ rfl).2.1 unheld small
  obtain ⟨-, -, -, -, quotient''⟩ := whole_arithmetic (Binary64.bound * 3) 3
  exact ⟨r, k, percent, less, (quotient (by decide) 3 rfl).1 held, slash, other,
    (quotient'' (by decide) _ rfl).2.2 (Int.natAbs_natCast _).ge⟩

theorem large_quotient_inexact : ¬ ∀ a b : Int, b ≠ 0 → b ∣ a →
    apply .slash (.ofInt a) (.ofInt b) = .ok (.ofInt (a / b)) := by
  intro exact
  have rounded : apply .slash (.ofInt 9007199254740993) (.ofInt 1) =
      .ok (.ofInt 9007199254740992) := by
    decide +kernel
  have claimed := exact 9007199254740993 1 (by decide) (one_dvd _)
  cases rounded.symm.trans claimed

end Value

end InstallScript
