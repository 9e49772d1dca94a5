import InstallScript.Defect

/-!
What operators do to values. A string added to anything but void joins texts; otherwise arithmetic
is for numbers, and comparison for two numbers or two strings.
-/

namespace InstallScript

/-- Why an operator gives no value. -/
inductive Trouble
  | fault (fault : Fault)
  | overflow (overflow : Overflow)
  deriving DecidableEq, Repr

namespace Value

/-- The value of a computed number. -/
def ofComputed : Except Overflow Number → Except Trouble Value
  | .ok n => .ok (.ofNumber n)
  | .error o => .error (.overflow o)

/-- Arithmetic on two numbers. -/
def arithmetic (operator : BinaryOperator) (x y : Number) : Except Trouble Value :=
  match operator with
  | .plus => ofComputed (x.add y)
  | .minus => ofComputed (x.sub y)
  | .star => ofComputed (x.mul y)
  | .slash => if y.isZero then .error (.fault .divisionByZero) else ofComputed (x.div y)
  | .percent => if y.isZero then .error (.fault .divisionByZero) else ofComputed (x.mod y)
  | _ => .error (.fault (.unsupportedOperands operator (.number x) (.number y)))

/-- The operators that compare sizes. -/
def isOrdering : BinaryOperator → Bool
  | .lt | .gt | .le | .ge => true
  | _ => false

/-- The comparison of two numbers. -/
def compareNumbers (operator : BinaryOperator) (x y : Number) : Bool :=
  match operator with
  | .lt => x.less y
  | .gt => y.less x
  | .le => x.atMost y
  | .ge => y.atMost x
  | _ => false

/-- The comparison of two strings, character by character in the order of code points. -/
def compareStrings (operator : BinaryOperator) (s t : String) : Bool :=
  match operator with
  | .lt => decide (s < t)
  | .gt => decide (t < s)
  | .le => !decide (t < s)
  | .ge => !decide (s < t)
  | _ => false

/-- An operator between two values. The logical words are not among the operators that this is
for: they do not always need both values. -/
def apply (operator : BinaryOperator) (left right : Value) : Except Trouble Value :=
  let unsupported : Except Trouble Value :=
    .error (.fault (.unsupportedOperands operator left right))
  match operator, left, right with
  | .eq, _, _ => .ok (.bool (left.same right))
  | .ne, _, _ => .ok (.bool (!left.same right))
  | _, .void, _ => unsupported
  | _, _, .void => unsupported
  | .plus, .string s, _ => .ok (.string (s ++ right.text))
  | .plus, _, .string t => .ok (.string (left.text ++ t))
  | _, .bool _, _ => unsupported
  | _, _, .bool _ => unsupported
  | _, .number x, .number y =>
    if isOrdering operator then .ok (.bool (compareNumbers operator x y))
    else arithmetic operator x y
  | _, .string s, .string t =>
    if isOrdering operator then .ok (.bool (compareStrings operator s t)) else unsupported
  | _, .number _, .string _ =>
    if isOrdering operator then .error (.fault (.incomparable left right)) else unsupported
  | _, .string _, .number _ =>
    if isOrdering operator then .error (.fault (.incomparable left right)) else unsupported

/-- The sign of a value turned round. -/
def negate : Value → Except Trouble Value
  | .number n => .ok (.ofNumber n.neg)
  | v => .error (.fault (.notNegatable v))

end Value

end InstallScript
