import InstallScript.Datum
import InstallScript.Text.CaseFold

/-!
The values of scripts: strings, numbers, booleans, and void, the result of a call that returns
nothing. How a value reads as a condition is for each dialect to say, by its `Truthiness`.
-/

namespace InstallScript

/-- The kind of a value. -/
inductive ValueKind
  | string
  | number
  | bool
  | void
  deriving DecidableEq, Repr

/-- The name of a kind. -/
def ValueKind.name : ValueKind → String
  | string => "string"
  | number => "number"
  | bool => "bool"
  | void => "void"

/-- A value of a script. -/
inductive Value
  | string (value : String)
  | number (value : Number)
  | bool (value : Bool)
  | void
  deriving DecidableEq, Repr

namespace Value

/-- The kind of a value. -/
def kind : Value → ValueKind
  | string _ => .string
  | number _ => .number
  | bool _ => .bool
  | void => .void

/-- A number value; a whole number is kept as such. -/
def ofNumber (n : Number) : Value := .number n.normalize

/-- A whole number value. -/
def ofInt (n : Int) : Value := .number (.int n)

/-- The value that a piece of plain data stands for. Lists, mappings, days and moments stand for
none. -/
def ofDatum? : Datum → Option Value
  | .none => some .void
  | .bool b => some (.bool b)
  | .number n => some (.ofNumber n)
  | .text s => some (.string s)
  | _ => Option.none

/-- A value as plain data. -/
def toDatum : Value → Datum
  | string s => .text s
  | number n => .number n
  | bool b => .bool b
  | void => .none

/-- A value as part of a message: its kind and its data. -/
def describe : Value → String
  | .void => "void"
  | v => v.kind.name ++ " " ++ v.toDatum.shown

/-- A value as text, in the form that joining strings uses. -/
def text : Value → String
  | string s => s
  | number n => n.text
  | bool b => if b then "true" else "false"
  | void => ""

/-- Values of one kind with equal data. -/
def same : Value → Value → Bool
  | string a, string b => a = b
  | number a, number b => a.same b
  | bool a, bool b => a = b
  | void, void => true
  | _, _ => false

end Value

/-- How a dialect reads values as conditions. Booleans are themselves and void is false; zero and
the empty string are false if the rules say so, and so is a string whose folded text is one of
`falseStrings`. -/
structure Truthiness where
  emptyStringIsFalse : Bool := true
  zeroIsFalse : Bool := true
  falseStrings : List String := []
  deriving DecidableEq, Repr

/-- A value read as a condition. -/
def Truthiness.holds (rules : Truthiness) : Value → Bool
  | .bool b => b
  | .void => false
  | .number n => !(rules.zeroIsFalse && n.isZero)
  | .string s =>
    if s = "" then !rules.emptyStringIsFalse else !rules.falseStrings.contains (Text.fold s)

end InstallScript
