import InstallScript.Number.Shortest
import InstallScript.Text.Blank
import InstallScript.Text.Digit
import InstallScript.Text.Quoted

/-!
Numbers as text, in both directions.
-/

namespace InstallScript

/-! ## Writing -/

/-- How a double-precision number is written. -/
structure DecimalStyle where
  /-- The exponent of the first digit from which on the number is written positionally. -/
  leastPositional : Int
  /-- The exponent of the first digit from which on scientific form is used again. -/
  firstScientific : Int
  /-- The least number of digits of an exponent. -/
  exponentWidth : Nat
  /-- What is added to a number that would otherwise show no point. -/
  wholeSuffix : String

/-- From `0.0001` to below `10 ^ 16` numbers are written positionally and always with a point;
others have an exponent with a sign and at least two digits. -/
def DecimalStyle.plain : DecimalStyle := ⟨-4, 16, 2, ".0"⟩

/-- The exponent part of a number in scientific form. -/
def DecimalStyle.exponentText (style : DecimalStyle) (e : Int) : String :=
  let digits := toString e.natAbs
  let padding := String.ofList (List.replicate (style.exponentWidth - digits.length) '0')
  (if e < 0 then "e-" else "e+") ++ padding ++ digits

/-- A positive decimal as text. -/
def DecimalStyle.write (style : DecimalStyle) (d : Decimal) : String :=
  let written := Nat.toDigits 10 d.digits
  let digits := (written.reverse.dropWhile (· = '0')).reverse
  let lead : Int := written.length + d.exponent - 1
  if style.leastPositional ≤ lead ∧ lead < style.firstScientific then
    if lead < 0 then
      "0." ++ String.ofList (List.replicate (-lead - 1).toNat '0' ++ digits)
    else
      let whole := lead.toNat + 1
      if digits.length ≤ whole then
        String.ofList (digits ++ List.replicate (whole - digits.length) '0') ++ style.wholeSuffix
      else
        String.ofList (digits.take whole) ++ "." ++ String.ofList (digits.drop whole)
  else
    let fraction := String.ofList (digits.drop 1)
    String.ofList (digits.take 1) ++ (if fraction.isEmpty then "" else "." ++ fraction) ++
      style.exponentText lead

/-- A double-precision number as text. -/
def Binary64.text : Binary64 → String
  | .nan => "nan"
  | .infinite negative => if negative then "-inf" else "inf"
  | .finite negative m e =>
    (if negative then "-" else "") ++
      (if m = 0 then "0.0" else DecimalStyle.plain.write (Decimal.shortest m e))

/-! ## Reading -/

/-- The value of a string of decimal digits. -/
def digitsValue (digits : List Char) : Nat :=
  digits.foldl (fun n c => n * 10 + (c.toNat - 48)) 0

/-- The decimal with the given digits before and after the point and the given exponent. -/
def Decimal.ofParts (whole fraction : List Char) (exponent : Int) : Decimal :=
  ⟨digitsValue (whole ++ fraction), exponent - fraction.length⟩

/-- A sign, if there is one, and what follows it. -/
def takeSign : List Char → Bool × List Char
  | '-' :: rest => (true, rest)
  | '+' :: rest => (false, rest)
  | rest => (false, rest)

/-- The exponent part of a number, which has to be the whole text, or nothing. -/
def readExponent? : List Char → Option Int
  | [] => some 0
  | c :: rest =>
    let (negative, digits) := takeSign rest
    if (c = 'e' || c = 'E') && !digits.isEmpty && digits.all Char.isDigit then
      some (if negative then -(digitsValue digits : Int) else digitsValue digits)
    else none

/-- A decimal number that makes up the whole text: digits with at most one point among them or at
either end, and perhaps an exponent. -/
def Decimal.ofText? (cs : List Char) : Option Decimal :=
  let whole := cs.takeWhile Char.isDigit
  let rest := cs.dropWhile Char.isDigit
  let afterPoint := match rest with | '.' :: r => r | r => r
  let hasPoint := rest.head? = some '.'
  let fraction := if hasPoint then afterPoint.takeWhile Char.isDigit else []
  let tail := if hasPoint then afterPoint.dropWhile Char.isDigit else rest
  if whole.isEmpty && fraction.isEmpty then none
  else (readExponent? tail).map (Decimal.ofParts whole fraction)

/-- The double-precision number that a text stands for. -/
def Binary64.ofText? (s : String) : Option Binary64 :=
  let (negative, cs) := takeSign s.toList
  if cs = "inf".toList then some (.infinite negative)
  else if cs = "nan".toList then some .nan
  else (Decimal.ofText? cs).map (Binary64.ofDecimal negative)

/-- The values of digits that may be parted by single underscores; `expectDigit` says that an
underscore or the end may not come next. -/
def readDigits? : Bool → Nat → List Char → Option Nat
  | expectDigit, n, [] => if expectDigit then none else some n
  | expectDigit, n, c :: rest =>
    if c = '_' then
      if expectDigit then none else readDigits? true n rest
    else
      match Text.decimalValue? c with
      | some d => readDigits? false (n * 10 + d) rest
      | none => none

/-- The whole number that a text stands for. Blanks around it, a sign, digits of any script and
single underscores between digits are allowed. -/
def readInteger? (s : String) : Option Int :=
  let (negative, cs) := takeSign (Text.trim Text.isNumberBlank s.toList)
  (readDigits? true 0 cs).map fun n => if negative then -(n : Int) else n

/-- What is said of a text that is no whole number in a base. Of a long text only the beginning is
shown. -/
def notIntegerMessage (base : Nat) (s : String) : String :=
  let shown := String.ofList ((Text.quoted s).toList.take 200)
  s!"invalid literal for int() with base {base}: {shown}"

end InstallScript
