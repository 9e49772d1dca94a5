/-!
Double-precision numbers, given by their exact values. Every operation computes the exact rational
result and rounds it once, to the nearest representable number and to an even mantissa when two are
equally near; so an operation is described by its exact counterpart and by `Binary64.nearest`.

Powers are `Nat.pow` and `Int.pow` here, so that no instance has to be chosen for them.
-/

namespace InstallScript

/-- A double-precision number. The finite number has the value `± mantissa · 2 ^ exponent`. -/
inductive Binary64
  | nan
  | infinite (negative : Bool)
  | finite (negative : Bool) (mantissa : Nat) (exponent : Int)
  deriving DecidableEq, Repr

/-- `m · 2 ^ e`. -/
def scaleTwo (m : Int) (e : Int) : Rat :=
  mkRat (m * Int.pow 2 e.toNat) (Nat.pow 2 (-e).toNat)

/-- `m · 10 ^ e`. -/
def scaleTen (m : Int) (e : Int) : Rat :=
  mkRat (m * Int.pow 10 e.toNat) (Nat.pow 10 (-e).toNat)

/-- The quotient rounded to the nearest whole number, a tie to the even one. -/
def roundQuotient (numerator denominator : Nat) : Nat :=
  let quotient := numerator / denominator
  let rest := numerator % denominator
  if denominator < 2 * rest ∨ (2 * rest = denominator ∧ quotient % 2 = 1) then quotient + 1
  else quotient

namespace Binary64

/-- Zero with a sign. -/
def zero (negative : Bool) : Binary64 := .finite negative 0 (-1074)

/-- The finite numbers are those whose mantissa has 53 binary digits, or fewer at the smallest
exponent. -/
def Canonical : Binary64 → Prop
  | .finite _ m e => m < Nat.pow 2 53 ∧ -1074 ≤ e ∧ e ≤ 971 ∧ (Nat.pow 2 52 ≤ m ∨ e = -1074)
  | _ => True

/-- The exponent that gives the quotient of two positive numbers 53 binary digits, or the smallest
one. -/
def quotientExponent (numerator denominator : Nat) : Int :=
  let k : Int := numerator.log2 - denominator.log2
  let small := numerator * Nat.pow 2 (-k).toNat < denominator * Nat.pow 2 k.toNat
  max (if small then k - 53 else k - 52) (-1074)

/-- The number nearest to a quotient of positive numbers. -/
def nearestQuotient (negative : Bool) (numerator denominator : Nat) : Binary64 :=
  let e := quotientExponent numerator denominator
  let m := roundQuotient (numerator * Nat.pow 2 (-e).toNat) (denominator * Nat.pow 2 e.toNat)
  let (m, e) := if m = Nat.pow 2 53 then (Nat.pow 2 52, e + 1) else (m, e)
  if 971 < e then .infinite negative else .finite negative m e

/-- The number nearest to a rational number; a value too large for the format becomes infinite. The
sign of a zero is given. -/
def nearest (zeroNegative : Bool) (x : Rat) : Binary64 :=
  if x.num = 0 then zero zeroNegative
  else nearestQuotient (x.num < 0) x.num.natAbs x.den

/-- The exact value of a finite number. -/
def toRat? : Binary64 → Option Rat
  | .finite negative m e => some (scaleTwo (if negative then -m else m) e)
  | _ => none

/-- The sign bit; a number that is no number has none. -/
def isNegative : Binary64 → Bool
  | .nan => false
  | .infinite negative => negative
  | .finite negative _ _ => negative

/-- The whole number that a number is equal to. -/
def toInt? (x : Binary64) : Option Int :=
  match x.toRat? with
  | some r => if r.den = 1 then some r.num else none
  | none => none

/-- The whole number that is left when the fraction is dropped; what is not finite leaves zero. -/
def truncate (x : Binary64) : Int :=
  match x.toRat? with
  | some r => r.num.tdiv r.den
  | none => 0

/-- The opposite number. -/
def neg : Binary64 → Binary64
  | .nan => .nan
  | .infinite negative => .infinite (!negative)
  | .finite negative m e => .finite (!negative) m e

/-- Sum. Opposite infinities have none. -/
def add : Binary64 → Binary64 → Binary64
  | .nan, _ => .nan
  | _, .nan => .nan
  | .infinite a, .infinite b => if a = b then .infinite a else .nan
  | .infinite a, _ => .infinite a
  | _, .infinite b => .infinite b
  | .finite a m e, .finite b n f =>
    nearest (a && b) (scaleTwo (if a then -m else m) e + scaleTwo (if b then -n else n) f)

/-- Difference. -/
def sub (x y : Binary64) : Binary64 :=
  x.add y.neg

/-- Product. Zero and an infinity have none. -/
def mul : Binary64 → Binary64 → Binary64
  | .nan, _ => .nan
  | _, .nan => .nan
  | .infinite a, .infinite b => .infinite (a != b)
  | .infinite a, .finite b n _ => if n = 0 then .nan else .infinite (a != b)
  | .finite a m _, .infinite b => if m = 0 then .nan else .infinite (a != b)
  | .finite a m e, .finite b n f => nearest (a != b) (scaleTwo m e * scaleTwo n f *
      (if a = b then 1 else -1))

/-- Quotient by a number other than zero. -/
def div : Binary64 → Binary64 → Binary64
  | .nan, _ => .nan
  | _, .nan => .nan
  | .infinite _, .infinite _ => .nan
  | .infinite a, .finite b _ _ => .infinite (a != b)
  | .finite a _ _, .infinite b => zero (a != b)
  | .finite a m e, .finite b n f => nearest (a != b) (scaleTwo m e / scaleTwo n f *
      (if a = b then 1 else -1))

/-- What is left of `x` after as many whole `y` as fit, with the sign of `x`. -/
def truncatedRemainder : Binary64 → Binary64 → Binary64
  | .finite a m e, .finite _ n f =>
    let x := scaleTwo m e
    let y := scaleTwo n f
    if n = 0 then .nan
    else nearest a ((x - y * ((x / y).floor : Int)) * (if a then -1 else 1))
  | x@(.finite ..), .infinite _ => x
  | _, _ => .nan

/-- The remainder with the sign of the divisor. -/
def mod (x y : Binary64) : Binary64 :=
  match truncatedRemainder x y with
  | .finite negative m e =>
    if m = 0 then zero y.isNegative
    else if negative = y.isNegative then .finite negative m e
    else (Binary64.finite negative m e).add y
  | other => other

end Binary64

end InstallScript
