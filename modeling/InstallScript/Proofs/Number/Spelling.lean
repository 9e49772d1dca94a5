import InstallScript.Proofs.Number.Decimals
import InstallScript.Token.Scan

/-!
How numbers are spelled. The text of a number that is not negative is a numeral: digits, a fraction
if there is one, and an exponent if there is one. The literal that the numeral stands for is the
number itself (`Number.text_numeral`).
-/

namespace InstallScript

/-! ## Values of digits -/

theorem digitsValue_eq (ds : List Char) : digitsValue ds = Nat.ofDigitChars 10 ds 0 := by
  unfold digitsValue Nat.ofDigitChars
  congr 1
  funext n c
  rw [Nat.mul_comm]
  rfl

theorem digitsValue_toDigits (n : Nat) : digitsValue (Nat.toDigits 10 n) = n := by
  rw [digitsValue_eq, Nat.ofDigitChars_ten_toDigits]

theorem digitsValue_append (ds es : List Char) :
    digitsValue (ds ++ es) = digitsValue ds * 10 ^ es.length + digitsValue es := by
  rw [digitsValue_eq, digitsValue_eq, digitsValue_eq, Nat.ofDigitChars_append,
    Nat.ofDigitChars_eq_ofDigitChars_zero, Nat.mul_comm]

theorem digitsValue_zeros (k : Nat) : digitsValue (List.replicate k '0') = 0 := by
  rw [digitsValue_eq, Nat.ofDigitChars_replicate_zero, Nat.mul_zero]

theorem digitsValue_append_zeros (ds : List Char) (k : Nat) :
    digitsValue (ds ++ List.replicate k '0') = digitsValue ds * 10 ^ k := by
  rw [digitsValue_append, digitsValue_zeros, List.length_replicate, Nat.add_zero]

theorem digitsValue_zeros_append (k : Nat) (ds : List Char) :
    digitsValue (List.replicate k '0' ++ ds) = digitsValue ds := by
  rw [digitsValue_append, digitsValue_zeros, Nat.zero_mul, Nat.zero_add]

/-- Digits without the zeros at their end. -/
theorem exists_significant (ds : List Char) :
    ∃ z, ds = (ds.reverse.dropWhile (· = '0')).reverse ++ List.replicate z '0' := by
  refine ⟨(ds.reverse.takeWhile (· = '0')).length, ?_⟩
  have zeros : ds.reverse.takeWhile (· = '0') =
      List.replicate (ds.reverse.takeWhile (· = '0')).length '0' := by
    refine List.eq_replicate_iff.2 ⟨rfl, fun c member => ?_⟩
    exact of_decide_eq_true (List.all_eq_true.1 List.all_takeWhile c member)
  have split := List.takeWhile_append_dropWhile (p := (· = '0')) (l := ds.reverse)
  rw [← List.reverse_replicate, ← zeros, ← List.reverse_append, split, List.reverse_reverse]

/-- Decimals with the same digits up to zeros at the end read the same. -/
theorem Binary64.ofDecimal_congr {negative : Bool} {d d' : Decimal} {v j k : Nat}
    (digits : d.digits = v * 10 ^ j) (digits' : d'.digits = v * 10 ^ k)
    (exponents : d.exponent + j = d'.exponent + k) :
    ofDecimal negative d = ofDecimal negative d' := by
  rcases d with ⟨n, e⟩
  rcases d' with ⟨n', e'⟩
  dsimp only at digits digits' exponents
  have left := ofDecimal_shift negative v j (e + j)
  have right := ofDecimal_shift negative v k (e' + k)
  rw [Int.add_sub_cancel] at left right
  rw [digits, digits', left, right, exponents]

/-! ## Numerals -/

/-- The parts of a number literal. -/
structure Numeral (whole fraction mark exponent : List Char) : Prop where
  wholeNonempty : whole ≠ []
  wholeDigits : ∀ c ∈ whole, c.isDigit
  fractionDigits : fraction = [] ∨
    ∃ d ds, fraction = '.' :: d :: ds ∧ ∀ c ∈ d :: ds, c.isDigit
  exponentDigits : mark = [] ∧ exponent = [] ∨
    ∃ sign d ds, (sign = '+' ∨ sign = '-') ∧ mark = ['e', sign] ∧ exponent = d :: ds ∧
      ∀ c ∈ d :: ds, c.isDigit

/-- A text that is spelled as a numeral and stands for a number. -/
def SpelledAs (cs : List Char) (n : Number) : Prop :=
  ∃ whole fraction mark exponent, cs = whole ++ (fraction ++ (mark ++ exponent)) ∧
    Numeral whole fraction mark exponent ∧ literalNumber whole fraction mark exponent = n

theorem isDigit_of_mem_toDigits {n : Nat} {c : Char} (member : c ∈ Nat.toDigits 10 n) :
    c.isDigit = true :=
  Nat.isDigit_of_mem_toDigits (by decide) (by decide) member

/-- A whole number is spelled in digits. -/
theorem int_spelled (n : Nat) : SpelledAs (Number.int n).text.toList (.int n) := by
  refine ⟨Nat.toDigits 10 n, [], [], [], ?_,
    ⟨Nat.toDigits_ne_nil, ?_, .inl rfl, .inl ⟨rfl, rfl⟩⟩, ?_⟩
  · rw [List.append_nil, List.append_nil, List.append_nil, ← Nat.toList_repr]
    rfl
  · exact fun c => isDigit_of_mem_toDigits
  · simp [literalNumber, digitsValue_toDigits]

/-- A fraction without an exponent is a decimal. -/
theorem literalNumber_fraction (whole ds : List Char) :
    literalNumber whole ('.' :: ds) [] [] =
      .float (Binary64.ofDecimal false ⟨digitsValue (whole ++ ds), -ds.length⟩) := by
  rw [literalNumber, if_neg (by simp)]
  simp [Decimal.ofParts, digitsValue]

/-- An exponent makes a decimal. -/
theorem literalNumber_exponent (whole fraction exponent : List Char) (sign : Char) (e : Int)
    (value : (if sign = '-' then -(digitsValue exponent : Int) else digitsValue exponent) = e) :
    literalNumber whole fraction ['e', sign] exponent = .float (Binary64.ofDecimal false
      ⟨digitsValue (whole ++ fraction.drop 1), e - (fraction.drop 1).length⟩) := by
  have contains : (['e', sign].contains '-' = true) ↔ sign = '-' := by
    simp [eq_comm]
  rw [literalNumber, if_neg (by simp)]
  simp only [contains, value, Decimal.ofParts]

theorem spelled_fraction {whole fs : List Char} {d : Decimal} {v j k : Nat} (nonempty : whole ≠ [])
    (wholeDigits : ∀ c ∈ whole, c.isDigit = true) (nonempty' : fs ≠ [])
    (fractionDigits : ∀ c ∈ fs, c.isDigit = true) (value : d.digits = v * 10 ^ j)
    (spelled : digitsValue (whole ++ fs) = v * 10 ^ k)
    (exponents : d.exponent + j = k - fs.length) :
    SpelledAs (whole ++ (['.'] ++ fs)) (.float (Binary64.ofDecimal false d)) := by
  obtain ⟨f, more, rfl⟩ := List.exists_cons_of_ne_nil nonempty'
  refine ⟨whole, '.' :: f :: more, [], [], by simp,
    ⟨nonempty, wholeDigits, .inr ⟨f, more, rfl, fractionDigits⟩, .inl ⟨rfl, rfl⟩⟩, ?_⟩
  rw [literalNumber_fraction]
  congr 1
  refine Binary64.ofDecimal_congr spelled value ?_
  dsimp only
  omega

theorem spelled_exponent {whole fs es : List Char} {sign : Char} {d : Decimal} {v j : Nat}
    {e : Int} (nonempty : whole ≠ []) (wholeDigits : ∀ c ∈ whole, c.isDigit = true)
    (fractionDigits : ∀ c ∈ fs, c.isDigit = true) (isSign : sign = '+' ∨ sign = '-')
    (nonempty' : es ≠ []) (exponentDigits : ∀ c ∈ es, c.isDigit = true)
    (exponent : (if sign = '-' then -(digitsValue es : Int) else digitsValue es) = e)
    (value : d.digits = v * 10 ^ j) (spelled : digitsValue (whole ++ fs) = v)
    (exponents : d.exponent + j = e - fs.length) :
    SpelledAs (whole ++ ((if fs.isEmpty then [] else '.' :: fs) ++ ('e' :: sign :: es)))
      (.float (Binary64.ofDecimal false d)) := by
  obtain ⟨x, xs, rfl⟩ := List.exists_cons_of_ne_nil nonempty'
  have fraction : (if fs.isEmpty then [] else '.' :: fs) = [] ∨
      ∃ f more, (if fs.isEmpty then [] else '.' :: fs) = '.' :: f :: more ∧
        ∀ c ∈ f :: more, c.isDigit = true := by
    cases fs with
    | nil => exact .inl rfl
    | cons f more => exact .inr ⟨f, more, rfl, fractionDigits⟩
  have behindPoint : (if fs.isEmpty then [] else '.' :: fs).drop 1 = fs := by
    cases fs <;> rfl
  refine ⟨whole, _, ['e', sign], x :: xs, rfl,
    ⟨nonempty, wholeDigits, fraction, .inr ⟨sign, x, xs, isSign, rfl, rfl, exponentDigits⟩⟩, ?_⟩
  rw [literalNumber_exponent _ _ _ _ e exponent, behindPoint]
  congr 1
  refine Binary64.ofDecimal_congr (v := v) (j := 0) ?_ value ?_
  · rw [spelled, Nat.pow_zero, Nat.mul_one]
  · dsimp only
    omega

theorem exponentText_eq (e : Int) : ∃ sign es, (sign = '+' ∨ sign = '-') ∧ es ≠ [] ∧
    (∀ c ∈ es, c.isDigit = true) ∧
    (if sign = '-' then -(digitsValue es : Int) else digitsValue es) = e ∧
    (DecimalStyle.plain.exponentText e).toList = 'e' :: sign :: es := by
  refine ⟨if e < 0 then '-' else '+', List.replicate (2 - (toString e.natAbs).length) '0' ++
    Nat.toDigits 10 e.natAbs, ?_, ?_, ?_, ?_, ?_⟩
  · split
    · exact .inr rfl
    · exact .inl rfl
  · exact List.append_ne_nil_of_right_ne_nil _ Nat.toDigits_ne_nil
  · intro c member
    rcases List.mem_append.1 member with padding | digit
    · rw [List.eq_of_mem_replicate padding]
      rfl
    · exact isDigit_of_mem_toDigits digit
  · rw [digitsValue_zeros_append, digitsValue_toDigits]
    by_cases negative : e < 0
    · rw [if_pos negative, if_pos rfl]
      omega
    · rw [if_neg negative, if_neg (by decide)]
      omega
  · have digits : (toString e.natAbs).toList = Nat.toDigits 10 e.natAbs := Nat.toList_repr
    unfold DecimalStyle.exponentText
    dsimp only [DecimalStyle.plain]
    rw [String.toList_append, String.toList_append, digits, String.toList_ofList]
    split <;> rfl

/-- The digits of a decimal without the zeros at their end, and how many those are. -/
structure Significant (d : Decimal) (ds : List Char) (z : Nat) : Prop where
  nonempty : ds ≠ []
  digits : ∀ c ∈ ds, c.isDigit = true
  value : d.digits = digitsValue ds * 10 ^ z

/-- The digits that are written are significant. -/
theorem exists_zeros {d : Decimal} (positive : 0 < d.digits) :
    ∃ z, Significant d ((Nat.toDigits 10 d.digits).reverse.dropWhile (· = '0')).reverse z ∧
      (Nat.toDigits 10 d.digits).length =
        ((Nat.toDigits 10 d.digits).reverse.dropWhile (· = '0')).reverse.length + z := by
  obtain ⟨z, split⟩ := exists_significant (Nat.toDigits 10 d.digits)
  have value := digitsValue_toDigits d.digits
  have digits : ∀ c ∈ Nat.toDigits 10 d.digits, c.isDigit = true :=
    fun c => isDigit_of_mem_toDigits
  have lengths := congrArg List.length split
  generalize ((Nat.toDigits 10 d.digits).reverse.dropWhile (· = '0')).reverse = ds
    at split lengths ⊢
  rw [split, digitsValue_append_zeros] at value
  rw [split] at digits
  refine ⟨z, ⟨?_, fun c member => digits c (List.mem_append_left _ member), value.symm⟩, ?_⟩
  · rintro rfl
    rw [show digitsValue [] = 0 from rfl, Nat.zero_mul] at value
    omega
  · rw [lengths, List.length_append, List.length_replicate]

theorem isDigit_of_mem_zeros {k : Nat} {c : Char} (member : c ∈ List.replicate k '0') :
    c.isDigit = true := by
  rw [List.eq_of_mem_replicate member]
  rfl

namespace Significant

variable {d : Decimal} {ds : List Char} {z : Nat} {lead : Int}

/-- A number below one, with zeros behind the point. -/
theorem spelled_below_one (significant : Significant d ds z)
    (leadEq : (ds.length + z : Nat) + d.exponent - 1 = lead) (below : lead < 0) :
    SpelledAs (['0'] ++ (['.'] ++ (List.replicate (-lead - 1).toNat '0' ++ ds)))
      (.float (Binary64.ofDecimal false d)) := by
  refine spelled_fraction (v := digitsValue ds) (j := z) (k := 0)
    (List.cons_ne_nil '0' []) (by simp) ?_ ?_ significant.value ?_ ?_
  · exact List.append_ne_nil_of_right_ne_nil _ significant.nonempty
  · intro c member
    rcases List.mem_append.1 member with zero | digit
    · exact isDigit_of_mem_zeros zero
    · exact significant.digits c digit
  · rw [digitsValue_append, digitsValue_zeros_append, Nat.pow_zero, Nat.mul_one]
    simp [digitsValue]
  · rw [List.length_append, List.length_replicate]
    omega

/-- A whole number, with zeros in front of the point and one behind it. -/
theorem spelled_whole (significant : Significant d ds z)
    (leadEq : (ds.length + z : Nat) + d.exponent - 1 = lead) (atLeast : 0 ≤ lead)
    (fits : ds.length ≤ lead.toNat + 1) :
    SpelledAs ((ds ++ List.replicate (lead.toNat + 1 - ds.length) '0') ++ (['.'] ++ ['0']))
      (.float (Binary64.ofDecimal false d)) := by
  refine spelled_fraction (v := digitsValue ds) (j := z) (k := lead.toNat + 1 - ds.length + 1)
    ?_ ?_ (List.cons_ne_nil '0' []) (by simp) significant.value ?_ ?_
  · exact List.append_ne_nil_of_left_ne_nil significant.nonempty _
  · intro c member
    rcases List.mem_append.1 member with digit | zero
    · exact significant.digits c digit
    · exact isDigit_of_mem_zeros zero
  · rw [digitsValue_append, digitsValue_append_zeros, Nat.pow_succ, Nat.mul_assoc]
    rfl
  · rw [List.length_singleton]
    omega

/-- A number with the point among its digits. -/
theorem spelled_parted (significant : Significant d ds z)
    (leadEq : (ds.length + z : Nat) + d.exponent - 1 = lead) (atLeast : 0 ≤ lead)
    (longer : ¬ ds.length ≤ lead.toNat + 1) :
    SpelledAs (ds.take (lead.toNat + 1) ++ (['.'] ++ ds.drop (lead.toNat + 1)))
      (.float (Binary64.ofDecimal false d)) := by
  refine spelled_fraction (v := digitsValue ds) (j := z) (k := 0) ?_ ?_ ?_ ?_ significant.value
    ?_ ?_
  · simp [significant.nonempty]
  · exact fun c member => significant.digits c (List.mem_of_mem_take member)
  · rw [ne_eq, List.drop_eq_nil_iff]
    exact longer
  · exact fun c member => significant.digits c (List.mem_of_mem_drop member)
  · rw [List.take_append_drop, Nat.pow_zero, Nat.mul_one]
  · rw [List.length_drop]
    omega

/-- A number with an exponent, which has a point only if it has further digits. -/
theorem spelled_scientific (significant : Significant d ds z)
    (leadEq : (ds.length + z : Nat) + d.exponent - 1 = lead) :
    SpelledAs (ds.take 1 ++ ((if (ds.drop 1).isEmpty then [] else '.' :: ds.drop 1) ++
      (DecimalStyle.plain.exponentText lead).toList)) (.float (Binary64.ofDecimal false d)) := by
  have positiveLength : 0 < ds.length := List.length_pos_iff.2 significant.nonempty
  obtain ⟨sign, es, isSign, nonempty, exponentDigits, exponent, text⟩ := exponentText_eq lead
  rw [text]
  refine spelled_exponent (v := digitsValue ds) (j := z) ?_ ?_ ?_ isSign nonempty exponentDigits
    exponent significant.value ?_ ?_
  · simp [significant.nonempty]
  · exact fun c member => significant.digits c (List.mem_of_mem_take member)
  · exact fun c member => significant.digits c (List.mem_of_mem_drop member)
  · rw [List.take_append_drop]
  · rw [List.length_drop]
    omega

end Significant

/-- The written form of a positive decimal is spelled as the number that the decimal reads as. -/
theorem write_spelled {d : Decimal} (positive : 0 < d.digits) :
    SpelledAs (DecimalStyle.plain.write d).toList (.float (Binary64.ofDecimal false d)) := by
  obtain ⟨z, significant, lengths⟩ := exists_zeros positive
  have leading : ("0." : String).toList = ['0'] ++ ['.'] := rfl
  have point : ("." : String).toList = ['.'] := rfl
  have wholeSuffix : DecimalStyle.plain.wholeSuffix.toList = ['.'] ++ ['0'] := rfl
  unfold DecimalStyle.write
  dsimp only
  rw [lengths]
  generalize ((Nat.toDigits 10 d.digits).reverse.dropWhile (· = '0')).reverse = ds
    at significant ⊢
  generalize leadEq : ((ds.length + z : Nat) : Int) + d.exponent - 1 = lead
  by_cases positional :
      DecimalStyle.plain.leastPositional ≤ lead ∧ lead < DecimalStyle.plain.firstScientific
  · rw [if_pos positional]
    by_cases below : lead < 0
    · rw [if_pos below, String.toList_append, leading, String.toList_ofList, List.append_assoc]
      exact significant.spelled_below_one leadEq below
    rw [if_neg below]
    by_cases fits : ds.length ≤ lead.toNat + 1
    · rw [if_pos fits, String.toList_append, wholeSuffix, String.toList_ofList]
      exact significant.spelled_whole leadEq (Int.not_lt.1 below) fits
    · rw [if_neg fits, String.toList_append, String.toList_append, point, String.toList_ofList,
        String.toList_ofList, List.append_assoc]
      exact significant.spelled_parted leadEq (Int.not_lt.1 below) fits
  · rw [if_neg positional]
    have fraction : (if (String.ofList (ds.drop 1)).isEmpty then ""
        else "." ++ String.ofList (ds.drop 1)).toList =
          if (ds.drop 1).isEmpty then [] else '.' :: ds.drop 1 := by
      cases ds.drop 1 with
      | nil => rfl
      | cons f fs =>
        have shown : (String.ofList (f :: fs)).isEmpty = false := by simp
        rw [shown, if_neg Bool.false_ne_true, String.toList_append, point, String.toList_ofList]
        rfl
    rw [String.toList_append, String.toList_append, fraction, String.toList_ofList,
      List.append_assoc]
    exact significant.spelled_scientific leadEq

/-! ## Numbers of scripts -/

/-- A number that a literal can stand for: not negative, and finite. -/
inductive Number.IsLiteral : Number → Prop
  | int (n : Nat) : IsLiteral (.int n)
  | float {m : Nat} {e : Int} (canonical : (Binary64.finite false m e).Canonical) :
      IsLiteral (.float (.finite false m e))

/-- The text of such a number is spelled as the number. -/
theorem Number.text_spelled {n : Number} (literal : n.IsLiteral) : SpelledAs n.text.toList n := by
  cases literal with
  | int n => exact int_spelled n
  | @float m e canonical =>
    rcases Nat.eq_zero_or_pos m with rfl | positive
    · obtain rfl : e = -1074 := canonical.2.2.2.resolve_left (by norm_num)
      refine ⟨['0'], ['.', '0'], [], [], rfl, ⟨nofun, by simp, .inr ⟨'0', [], rfl, by simp⟩,
        .inl ⟨rfl, rfl⟩⟩, rfl⟩
    · have nonzero : m ≠ 0 := Nat.pos_iff_ne_zero.1 positive
      have text : (Number.float (.finite false m e)).text =
          DecimalStyle.plain.write (Decimal.shortest m e) := by
        rw [Number.text, Binary64.text, if_neg nonzero, if_neg Bool.false_ne_true,
          String.empty_append]
      rw [text, ← Decimal.shortest_readsBack canonical positive]
      exact write_spelled (Decimal.shortest_digits_pos canonical positive)

end InstallScript
