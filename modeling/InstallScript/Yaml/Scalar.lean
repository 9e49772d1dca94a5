import InstallScript.Datum
import InstallScript.Yaml.Cursor
import InstallScript.Yaml.Fault

/-!
What scalars stand for. A text without quotes may stand for nothing, a truth value, a number, a day or a
moment, or be a mark with a meaning as a key; all else is text. A tag may say which of these a text
is.
-/

namespace InstallScript.Yaml

/-- What a scalar stands for. -/
inductive Scalar
  | datum (value : Datum)
  /-- The mark of a key whose value is merged into the mapping. -/
  | mergeMark
  /-- The mark of a default value. It is text as a key, and nothing elsewhere. -/
  | defaultMark
  | fault (fault : Fault)

/-- The outcome of reading a datum as a scalar. -/
def Scalar.ofReading : Reading Datum → Scalar
  | .ok d => .datum d
  | .error f => .fault f

/-! ## Words -/

/-- The words that stand for truth values. -/
def truthWords : List (String × Bool) :=
  [("yes", true), ("Yes", true), ("YES", true), ("no", false), ("No", false), ("NO", false),
    ("true", true), ("True", true), ("TRUE", true), ("false", false), ("False", false),
    ("FALSE", false), ("on", true), ("On", true), ("ON", true), ("off", false), ("Off", false),
    ("OFF", false)]

/-- The words that stand for nothing. -/
def nothingWords : List String := ["", "~", "null", "Null", "NULL"]

/-- The words that stand for numbers that are not finite. -/
def unboundedWords : List (String × Binary64) :=
  [(".inf", .infinite false), (".Inf", .infinite false), (".INF", .infinite false),
    ("+.inf", .infinite false), ("+.Inf", .infinite false), ("+.INF", .infinite false),
    ("-.inf", .infinite true), ("-.Inf", .infinite true), ("-.INF", .infinite true),
    (".nan", .nan), (".NaN", .nan), (".NAN", .nan)]

/-! ## Whole numbers -/

/-- The value of a digit in some base up to 16. -/
def digitValue (c : Char) : Nat :=
  if c.isDigit then c.toNat - 48 else c.toLower.toNat - 87

/-- Digits without the underscores between them. -/
def bareDigits (digits : List Char) : List Char := digits.filter (· ≠ '_')

/-- The value of digits in a base; underscores between them do not count. -/
def valueIn (base : Nat) (digits : List Char) : Nat :=
  (bareDigits digits).foldl (fun n c => n * base + digitValue c) 0

/-- A digit of the base, or an underscore. -/
def isDigitIn (base : Nat) (c : Char) : Bool :=
  c = '_' || (base = 2 && (c = '0' || c = '1')) || (base = 8 && '0' ≤ c && c ≤ '7') ||
    (base = 10 && c.isDigit) ||
    (base = 16 && (c.isDigit || ('a' ≤ c && c ≤ 'f') || ('A' ≤ c && c ≤ 'F')))

/-- The value of the digits behind the mark of a base. Underscores alone have the form of digits and
no value. -/
def marked? (base : Nat) (digits : List Char) : Option (Reading Nat) :=
  if digits.isEmpty || !digits.all (isDigitIn base) then none
  else if (bareDigits digits).isEmpty then some (.error (.noDigits base))
  else some (.ok (valueIn base digits))

/-- The pieces of a text between colons, after the characters already read of the first one, last
character first. -/
def colonPieces : List Char → List Char → List (List Char)
  | read, [] => [read.reverse]
  | read, c :: rest =>
    if c = ':' then read.reverse :: colonPieces [] rest else colonPieces (c :: read) rest

/-- One or two digits below sixty. -/
def isSixtieth : List Char → Bool
  | [c] => c.isDigit
  | [c, d] => '0' ≤ c && c ≤ '5' && d.isDigit
  | _ => false

/-- A digit and more digits, with underscores between them. -/
def isLongNumeral (cs : List Char) : Bool := cs.head?.any Char.isDigit && cs.all (isDigitIn 10)

/-- The value of a whole number without sign: binary, octal, decimal, hexadecimal, or in base 60
with colons. Nothing results from a text of another form. -/
def natural? : List Char → Option (Reading Nat)
  | '0' :: 'b' :: rest => marked? 2 rest
  | '0' :: 'x' :: rest => marked? 16 rest
  | '0' :: rest => if rest.all (isDigitIn 8) then some (.ok (valueIn 8 rest)) else none
  | cs =>
    match colonPieces [] cs with
    | whole :: sixtieths =>
      if isLongNumeral whole && sixtieths.all isSixtieth then
        some (.ok (sixtieths.foldl (fun n piece => n * 60 + valueIn 10 piece) (valueIn 10 whole)))
      else none
    | [] => none

/-- The whole number that a text has the form of. -/
def integer? (cs : List Char) : Option (Reading Datum) :=
  let (negative, digits) := takeSign cs
  (natural? digits).map fun found => found.map fun n =>
    .number (.int (if negative then -(n : Int) else n))

/-! ## Numbers with a fraction -/

/-- An exponent with its sign, which has to be the whole text, or nothing. -/
def isExponent : List Char → Bool
  | [] => true
  | e :: sign :: digits =>
    (e = 'e' || e = 'E') && (sign = '+' || sign = '-') && !digits.isEmpty &&
      digits.all Char.isDigit
  | _ => false

/-- Whether a text without sign has the form of a number with a point: a digit stands first, or behind
a point that stands first. -/
def isFraction (cs : List Char) : Bool :=
  match cs.dropWhile (isDigitIn 10) with
  | '.' :: rest =>
    let starts := match cs with
      | '.' :: c :: _ => c.isDigit
      | c :: _ => c.isDigit
      | [] => false
    starts && isExponent (rest.dropWhile (isDigitIn 10))
  | _ => false

/-- The number of a text in digits, with a point and an exponent or without. -/
def fractionOf (cs : List Char) : Reading Binary64 := do
  return .ofDecimal false (← demand (Decimal.ofText? (bareDigits cs)))

/-- The pieces of a number in base 60 whose last piece has a point. -/
def sixtieths? (cs : List Char) : Option (List (List Char)) :=
  match colonPieces [] cs with
  | whole :: first :: more =>
    let last := ((first :: more).getLast?.getD [])
    let inner := (first :: more).dropLast
    let fraction := last.dropWhile Char.isDigit
    if isLongNumeral whole && inner.all isSixtieth && isSixtieth (last.takeWhile Char.isDigit) &&
        fraction.head? = some '.' && (fraction.drop 1).all (isDigitIn 10) then
      some (whole :: first :: more)
    else none
  | _ => none

/-- The sum of pieces in base 60, last one first, computed in double precision; the first of them counts
`unit` times. -/
def sumOfSixtieths (sum : Binary64) (unit : Nat) : List (List Char) → Reading Binary64
  | [] => .ok sum
  | piece :: rest => do
    let x ← fractionOf piece
    match Number.mul (.float x) (.int unit) with
    | .ok (.float product) => sumOfSixtieths (sum.add product) (unit * 60) rest
    | .ok (.int _) => .error .illFormed
    | .error o => .error (.overflow o)

/-- The number with a fraction that a text has the form of. One that begins with its point has no
sign. -/
def fraction? (cs : List Char) : Option (Reading Datum) :=
  match unboundedWords.lookup (String.ofList cs) with
  | some x => some (.ok (.number (.float x)))
  | none =>
    let (negative, digits) := takeSign cs
    let signed (found : Reading Binary64) : Reading Datum := found.map fun x =>
      .number (.float (if negative then x.neg else x))
    if isFraction digits && (digits.head? ≠ some '.' || digits = cs) then
      some (signed (fractionOf digits))
    else
      (sixtieths? digits).map fun pieces =>
        signed (sumOfSixtieths (.zero false) 1 pieces.reverse)

/-! ## Days and moments -/

/-- The number of at least `least` digits and at most `most` that are next, and what follows it. -/
def takeNumber? (least most : Nat) (cs : List Char) : Option (Nat × List Char) :=
  let digits := (cs.take most).takeWhile Char.isDigit
  if digits.length < least then none else some (valueIn 10 digits, cs.drop digits.length)

/-- What follows a character that has to be next. -/
def after? (c : Char) (cs : List Char) : Option (List Char) :=
  if cs.head? = some c then some (cs.drop 1) else none

/-- The microseconds of a fraction of a second, of which six digits count. -/
def microseconds (digits : List Char) : Nat :=
  valueIn 10 ((digits ++ List.replicate 6 '0').take 6)

/-- The offset of a clock in minutes, which makes up the whole text; without one, nothing is known. -/
def clockOffset? (cs : List Char) : Option (Option Int) :=
  match cs.dropWhile isSpacing with
  | [] => if cs.isEmpty then some none else none
  | ['Z'] => some (some 0)
  | sign :: rest => do
    if sign ≠ '+' && sign ≠ '-' then none
    else do
      let (hours, rest) ← takeNumber? 1 2 rest
      let minutes ←
        if rest.isEmpty then some 0
        else do
          let (minutes, rest) ← takeNumber? 2 2 (← after? ':' rest)
          if rest.isEmpty then some minutes else none
      let length : Int := hours * 60 + minutes
      return some (if sign = '-' then -length else length)

/-- The time that makes up a text behind its day: `T` or blanks, and then hours, minutes and seconds with
what there is of a fraction and an offset. -/
def time? (cs : List Char) : Option (Nat × Nat × Nat × Nat × Option Int) := do
  let start ← match cs with
    | 'T' :: rest | 't' :: rest => some rest
    | c :: rest => if isSpacing c then some (rest.dropWhile isSpacing) else none
    | [] => none
  let (hour, rest) ← takeNumber? 1 2 start
  let (minute, rest) ← takeNumber? 2 2 (← after? ':' rest)
  let (second, rest) ← takeNumber? 2 2 (← after? ':' rest)
  let fraction := match rest with
    | '.' :: digits => digits.takeWhile Char.isDigit
    | _ => []
  let behind := match rest with
    | '.' :: digits => digits.dropWhile Char.isDigit
    | _ => rest
  return (hour, minute, second, microseconds fraction, ← clockOffset? behind)

/-- The day or the moment that a text has the form of. A day alone has two digits for the month and
for the day. -/
def calendar? (cs : List Char) : Option (Reading Datum) := do
  let (year, rest) ← takeNumber? 4 4 cs
  let (month, rest) ← takeNumber? 1 2 (← after? '-' rest)
  let (day, rest) ← takeNumber? 1 2 (← after? '-' rest)
  if rest.isEmpty then
    if cs.length = 10 then
      return ((Date.ofParts year month day).map Datum.date).mapError .calendar
    else none
  else do
    let (hour, minute, second, microsecond, offset) ← time? rest
    return ((Moment.ofParts year month day hour minute second microsecond offset).map
      Datum.moment).mapError .calendar

/-! ## Scalars -/

namespace Scalar

/-- What a plain scalar stands for. -/
def ofPlain (s : String) : Scalar :=
  let cs := s.toList
  if nothingWords.contains s then .datum .none
  else if s = "<<" then .mergeMark
  else if s = "=" then .defaultMark
  else
    match truthWords.lookup s with
    | some b => .datum (.bool b)
    | none =>
      match ((fraction? cs).or (integer? cs)).or (calendar? cs) with
      | some found => ofReading found
      | none => .datum (.text s)

/-- What every tag of the standard kinds begins with. -/
def standardStem : String := "tag:yaml.org,2002:"

/-- What a scalar with the given tag stands for. -/
def ofTagged (tag s : String) : Scalar :=
  let cs := s.toList
  let must (found : Option (Reading Datum)) : Scalar :=
    ofReading (found.getD (.error .illFormed))
  if tag = standardStem ++ "str" then .datum (.text s)
  else if tag = standardStem ++ "null" then .datum .none
  else if tag = standardStem ++ "bool" then
    must ((truthWords.lookup s).map fun b => .ok (.bool b))
  else if tag = standardStem ++ "int" then must (integer? cs)
  else if tag = standardStem ++ "float" then
    must ((fraction? cs).or ((integer? cs).map fun _ =>
      let (negative, digits) := takeSign cs
      (fractionOf digits).map fun x => .number (.float (if negative then x.neg else x))))
  else if tag = standardStem ++ "timestamp" then must (calendar? cs)
  else if tag = standardStem ++ "merge" then .mergeMark
  else if tag = standardStem ++ "value" then .defaultMark
  else .fault .illFormed

end Scalar

end InstallScript.Yaml
