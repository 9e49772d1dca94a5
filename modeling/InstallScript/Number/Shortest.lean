import InstallScript.Number.Binary64

/-!
The shortest decimal that reads back as a given double-precision number. For one digit, two digits
and so on the two decimals next to the number are tried; the first length at which one of them
rounds to the number wins, and of two such decimals the nearer one, the even one when they are
equally near.
-/

namespace InstallScript

/-- The decimal number `digits · 10 ^ exponent`. -/
structure Decimal where
  digits : Nat
  exponent : Int
  deriving DecidableEq, Repr

/-- The value of a decimal. -/
def Decimal.toRat (d : Decimal) : Rat :=
  scaleTen d.digits d.exponent

/-- How many decimal digits a number is written with. -/
def decimalLength (n : Nat) : Nat :=
  (Nat.toDigits 10 n).length

/-- The double-precision number nearest to a decimal. A decimal far outside the range of the format
is not computed. -/
def Binary64.ofDecimal (negative : Bool) (d : Decimal) : Binary64 :=
  let magnitude := decimalLength d.digits + d.exponent
  if d.digits = 0 ∨ magnitude < -330 then zero negative
  else if 310 < magnitude then .infinite negative
  else nearest negative (if negative then -d.toRat else d.toRat)

namespace Decimal

/-- The number `k` with `10 ^ (k - 1) ≤ x < 10 ^ k`, for `x` at least `10 ^ -330`. -/
def magnitudeOf (x : Rat) : Int :=
  decimalLength (x * (10 : Rat) ^ (330 : Nat)).floor.toNat - 330

/-- Of the two decimals of a given length next to `x`, the one that reads back as `target`. -/
def candidate? (target : Binary64) (x : Rat) (length : Nat) : Option Decimal :=
  let exponent := magnitudeOf x - length
  let scaled := x * scaleTen 1 (-exponent)
  let low := scaled.floor.toNat
  let below : Decimal := ⟨low, exponent⟩
  let above : Decimal := ⟨low + 1, exponent⟩
  let readsBack (d : Decimal) := decide (Binary64.ofDecimal false d = target)
  match readsBack below, readsBack above with
  | true, false => some below
  | false, true => some above
  | false, false => none
  | true, true =>
    let doubled := scaled * 2
    let middle : Rat := ((2 * low + 1 : Nat) : Int)
    if doubled < middle ∨ (doubled = middle ∧ low % 2 = 0) then some below else some above

/-- A decimal that is equal to `x`, for `x` whose denominator is a power of two. -/
def exact (x : Rat) : Decimal :=
  let places := x.den.log2
  ⟨(x * (10 : Rat) ^ places).floor.toNat, -places⟩

/-- The shortest decimal that reads back as the positive finite number with the given mantissa and
exponent. -/
def shortest (mantissa : Nat) (exponent : Int) : Decimal :=
  let x := scaleTwo mantissa exponent
  let target := Binary64.finite false mantissa exponent
  ((List.range 17).findSome? fun n => candidate? target x (n + 1)).getD (exact x)

end Decimal

end InstallScript
