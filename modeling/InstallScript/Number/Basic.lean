import InstallScript.Number.Text

/-!
The numbers of scripts: whole numbers of any size and double-precision numbers. Whole numbers are
computed with exactly; an operation that meets a double-precision number, and every division, gives
a double-precision number. Comparisons are exact whatever the operands are.
-/

namespace InstallScript

/-- A number. -/
inductive Number
  | int (value : Int)
  | float (value : Binary64)
  deriving DecidableEq, Repr

/-- A whole number that double precision cannot hold. -/
inductive Overflow
  /-- A quotient of whole numbers is too large. -/
  | quotient
  /-- An operand is too large. -/
  | operand
  deriving DecidableEq, Repr

/-- The wording of an overflow. -/
def Overflow.message : Overflow → String
  | quotient => "integer division result too large for a float"
  | operand => "int too large to convert to float"

/-- A number of the extended line. -/
inductive Extended
  | below
  | at (value : Rat)
  | above

namespace Number

/-- A double-precision number that is whole becomes a whole number. -/
def normalize : Number → Number
  | .int n => .int n
  | .float x =>
    match x.toInt? with
    | some n => .int n
    | none => .float x

/-- Not a double-precision number with a whole value. -/
def IsNormal : Number → Prop
  | .int _ => True
  | .float x => x.toInt? = none

/-- A number as text. -/
def text : Number → String
  | .int n => toString n
  | .float x => x.text

/-! ## Order -/

/-- The place of a number on the extended line. -/
def extended? : Number → Option Extended
  | .int n => some (.at n)
  | .float .nan => none
  | .float (.infinite negative) => some (if negative then .below else .above)
  | .float x => x.toRat?.map .at

/-- The order of two numbers; one that is no number has no order. -/
def compare? (x y : Number) : Option Ordering :=
  match x, y with
  | .int m, .int n => some (compare m n)
  | _, _ =>
    match x.extended?, y.extended? with
    | some .below, some .below => some .eq
    | some .above, some .above => some .eq
    | some .below, some _ => some .lt
    | some _, some .below => some .gt
    | some .above, some _ => some .gt
    | some _, some .above => some .lt
    | some (.at a), some (.at b) => some (if a < b then .lt else if a = b then .eq else .gt)
    | _, _ => none

/-- Equal values. -/
def same (x y : Number) : Bool := x.compare? y = some .eq

/-- Smaller. -/
def less (x y : Number) : Bool := x.compare? y = some .lt

/-- Smaller or equal. -/
def atMost (x y : Number) : Bool := x.less y || x.same y

/-- Equal to zero. -/
def isZero (x : Number) : Bool := x.same (.int 0)

/-! ## Arithmetic -/

/-- The double-precision number nearest to a whole number. -/
def ofIntNearest (n : Int) : Except Overflow Binary64 :=
  match Binary64.nearest false n with
  | .infinite _ => .error .operand
  | x => .ok x

/-- A number in double precision. -/
def toBinary64 : Number → Except Overflow Binary64
  | .int n => ofIntNearest n
  | .float x => .ok x

/-- An operation done exactly on whole numbers and in double precision otherwise. -/
def lift (exact : Int → Int → Int) (rounded : Binary64 → Binary64 → Binary64) (x y : Number) :
    Except Overflow Number :=
  match x, y with
  | .int m, .int n => .ok (.int (exact m n))
  | x, y => do
    let a ← x.toBinary64
    let b ← y.toBinary64
    return .float (rounded a b)

/-- Sum. -/
def add : Number → Number → Except Overflow Number := lift (· + ·) Binary64.add

/-- Difference. -/
def sub : Number → Number → Except Overflow Number := lift (· - ·) Binary64.sub

/-- Product. -/
def mul : Number → Number → Except Overflow Number := lift (· * ·) Binary64.mul

/-- Remainder with the sign of the divisor, which is not zero. -/
def mod : Number → Number → Except Overflow Number := lift Int.fmod Binary64.mod

/-- Quotient by a number other than zero. That of two whole numbers is rounded once. -/
def div (x y : Number) : Except Overflow Number :=
  match x, y with
  | .int m, .int n =>
    match Binary64.nearest false (mkRat (if n < 0 then -m else m) n.natAbs) with
    | .infinite _ => .error .quotient
    | q => .ok (.float q)
  | x, y => do
    let a ← x.toBinary64
    let b ← y.toBinary64
    return .float (a.div b)

/-- The opposite number. -/
def neg : Number → Number
  | .int n => .int (-n)
  | .float x => .float x.neg

end Number

end InstallScript
