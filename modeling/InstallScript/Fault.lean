import InstallScript.Diagnostic
import InstallScript.Operator
import InstallScript.Value

/-!
Everything that can be wrong with a script, from its text to its run. Each fault has a code, whose
first digit tells the stage that finds it, and a message.
-/

namespace InstallScript

/-- The stage that finds a fault. -/
inductive Stage
  | text
  | syntactic
  | signature
  | running
  | host
  deriving DecidableEq, Repr

/-- What is wrong with a script. -/
inductive Fault
  | unexpectedCharacter (c : Char)
  | unterminatedString
  | unterminatedComment
  /-- The characters after the backslash. -/
  | invalidEscape (sequence : String)
  | invalidNumber (lexeme : String)
  | unexpectedToken (expected found : String)
  | unexpectedEnd (expected : String)
  | noExpression (found : String)
  | unsupported (construct : String) (version : Int)
  | positionalAfterKeyword (function : String)
  | tooManyArguments (function : String) (limit given : Nat)
  | unknownKeyword (function keyword : String)
  | repeatedArgument (function parameter : String)
  | missingArguments (function : String) (parameters : List String)
  | argumentKind (function parameter expected found : String)
  | unknownFunction (name : String)
  | neverAssigned (name : String)
  | undefinedVariable (name : String)
  | undefinedTarget (name : String)
  | unsupportedOperands (operator : BinaryOperator) (left right : Value)
  | incomparable (left right : Value)
  | notNegatable (operand : Value)
  | loopBound (label : String) (found : Value)
  | divisionByZero
  | tooManyIterations (limit : Nat)
  | rejectedAnswer (reason : String)
  | noPromptHandler (function : String)
  /-- Nothing stands for a result that no value stands for. -/
  | wrongResult (function : String) (expected : ValueKind) (found : Option Value)
  | zeroStep
  /-- The function of a dialect that treats its failure as fatal has failed. -/
  | fatalFailure (function message : String)
  /-- The host has ended the run with a code and a message of its own. -/
  | reportedByHost (code message : String)
  deriving DecidableEq, Repr

namespace Fault

/-- The code of a fault. -/
def code : Fault → String
  | unexpectedCharacter _ => "E001"
  | unterminatedString => "E002"
  | unterminatedComment => "E004"
  | invalidEscape _ => "E005"
  | invalidNumber _ => "E006"
  | unexpectedToken .. => "E101"
  | unexpectedEnd _ => "E102"
  | noExpression _ => "E103"
  | unsupported .. => "E104"
  | positionalAfterKeyword _ => "E201"
  | tooManyArguments .. => "E201"
  | unknownKeyword .. => "E201"
  | repeatedArgument .. => "E201"
  | missingArguments .. => "E201"
  | argumentKind .. => "E202"
  | unknownFunction _ => "E203"
  | neverAssigned _ => "E204"
  | undefinedVariable _ => "E401"
  | undefinedTarget _ => "E401"
  | unsupportedOperands .. => "E402"
  | incomparable .. => "E402"
  | notNegatable _ => "E402"
  | loopBound .. => "E402"
  | divisionByZero => "E403"
  | tooManyIterations _ => "E404"
  | rejectedAnswer _ => "E405"
  | noPromptHandler _ => "E405"
  | wrongResult .. => "E406"
  | zeroStep => "E407"
  | fatalFailure .. => "E501"
  | reportedByHost code _ => code

/-- The stage that finds a fault. -/
def stage : Fault → Stage
  | unexpectedCharacter _ | unterminatedString | unterminatedComment | invalidEscape _
  | invalidNumber _ => .text
  | unexpectedToken .. | unexpectedEnd _ | noExpression _ | unsupported .. => .syntactic
  | positionalAfterKeyword _ | tooManyArguments .. | unknownKeyword .. | repeatedArgument ..
  | missingArguments .. | argumentKind .. | unknownFunction _ | neverAssigned _ => .signature
  | fatalFailure .. => .host
  | _ => .running

/-- The message of a fault. -/
def message : Fault → String
  | unexpectedCharacter c => s!"unexpected character '{c}'"
  | unterminatedString => "unterminated string literal"
  | unterminatedComment => "unterminated block comment (expected closing */)"
  | invalidEscape sequence => s!"invalid escape sequence '\\{sequence}'"
  | invalidNumber lexeme => s!"invalid number literal '{lexeme}'"
  | unexpectedToken expected found => s!"expected {expected}, found {found}"
  | unexpectedEnd expected => s!"unexpected end of input, expected {expected}"
  | noExpression found => s!"expected expression, found {found}"
  | unsupported construct version => s!"{construct} not supported by grammar version {version}"
  | positionalAfterKeyword function =>
    s!"positional argument follows keyword argument in call to {function}()"
  | tooManyArguments function limit given =>
    s!"{function}() takes at most {limit} argument(s), got {given}"
  | unknownKeyword function keyword =>
    s!"{function}() got an unexpected keyword argument '{keyword}'"
  | repeatedArgument function parameter =>
    s!"{function}() got multiple values for argument '{parameter}'"
  | missingArguments function parameters =>
    let names := ", ".intercalate parameters
    s!"{function}() missing required argument(s): {names}"
  | argumentKind function parameter expected found =>
    s!"argument '{parameter}' of {function}() expects {expected}, found {found}"
  | unknownFunction name => s!"unknown function '{name}'"
  | neverAssigned name => s!"variable '{name}' is never assigned"
  | undefinedVariable name => s!"undefined variable '{name}'"
  | undefinedTarget name => s!"cannot set undefined variable '{name}'"
  | unsupportedOperands operator left right =>
    s!"unsupported operands for {operator.symbol}: {left.describe} and {right.describe}"
  | incomparable left right => s!"cannot compare {left.describe} with {right.describe}"
  | notNegatable operand => s!"cannot negate {operand.describe}"
  | loopBound label found => s!"for loop {label} must be a number, got {found.describe}"
  | divisionByZero => "division by zero"
  | tooManyIterations limit => s!"loop exceeded {limit} iterations"
  | rejectedAnswer reason => reason
  | noPromptHandler function => s!"{function}() needs an answer but no prompt handler is set"
  | wrongResult function expected found =>
    let shown := match found with
      | some value => value.describe
      | none => "an unsupported value"
    s!"{function}() should return {expected.name}, returned {shown}"
  | zeroStep => "for loop step must not be zero"
  | fatalFailure function message => s!"{function}(): {message}"
  | reportedByHost _ message => message

/-- Advice that goes with a fault. -/
def hints : Fault → List String
  | unterminatedString =>
    ["string literals must be closed with matching quotes on the same line"]
  | invalidEscape _ =>
    ["valid escape sequences: \\n, \\t, \\r, \\\", \\', \\\\, \\0, \\x##, \\u####"]
  | _ => []

end Fault

/-- A fault with the stretch of the script that it is about and the line that this starts on. -/
structure ScriptError where
  fault : Fault
  span : Option Span
  sourceLine : Option String := none
  deriving DecidableEq, Repr

namespace ScriptError

/-- An error as a diagnostic. -/
def diagnostic (e : ScriptError) : Diagnostic where
  code := e.fault.code
  message := e.fault.message
  span := e.span
  sourceLine := e.sourceLine
  hints := e.fault.hints

/-- An error with the line that it starts on. -/
def withLine (e : ScriptError) (lines : List String) : ScriptError :=
  { e with sourceLine := sourceLine? lines e.span }

/-- An error that has no line yet gets the one it starts on. -/
def withLineIfMissing (e : ScriptError) (lines : List String) : ScriptError :=
  match e.sourceLine with
  | some _ => e
  | none => e.withLine lines

@[simp] theorem withLineIfMissing_fault (e : ScriptError) (lines : List String) :
    (e.withLineIfMissing lines).fault = e.fault := by
  unfold withLineIfMissing
  split <;> rfl

@[simp] theorem withLineIfMissing_span (e : ScriptError) (lines : List String) :
    (e.withLineIfMissing lines).span = e.span := by
  unfold withLineIfMissing
  split <;> rfl

end ScriptError

end InstallScript
