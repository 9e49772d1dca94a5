import InstallScript.Calendar
import InstallScript.Datum.Order
import InstallScript.Fault
import InstallScript.Path
import InstallScript.Text.Utf8

/-!
Defects: what ends a run or an operation without being an error of the script. A run that meets one
has no result.
-/

namespace InstallScript

/-- What the file system refuses. -/
inductive FileFault
  | notFound
  | exists
  | notDirectory
  | isDirectory
  | nameTooLong
  deriving DecidableEq, Repr

namespace FileFault

/-- The number of a refusal. -/
def number : FileFault → Nat
  | notFound => 2
  | .exists => 17
  | notDirectory => 20
  | isDirectory => 21
  | nameTooLong => 36

/-- The wording of a refusal. -/
def message : FileFault → String
  | notFound => "No such file or directory"
  | .exists => "File exists"
  | notDirectory => "Not a directory"
  | isDirectory => "Is a directory"
  | nameTooLong => "File name too long"

end FileFault

/-- A refusal with the path that it is about. -/
structure FileError where
  fault : FileFault
  path : String
  deriving DecidableEq, Repr

/-- The full wording of a refusal. -/
def FileError.message (e : FileError) : String :=
  s!"[Errno {e.fault.number}] {e.fault.message}: {Text.quoted e.path}"

/-- What goes wrong without being an error of the script. -/
inductive Defect
  | overflow (overflow : Overflow)
  | path (fault : PathFault)
  | file (error : FileError)
  /-- The bytes of a file are no text. -/
  | undecodable (error : Text.Utf8Error)
  /-- A part of a version that is made of digits and is no number. -/
  | notInteger (text : String)
  /-- A number of the given base without digits. -/
  | noDigits (base : Nat)
  /-- The path of a file holds a null character. -/
  | nullInPath
  /-- A number that is the number of no character. -/
  | noCharacter (number : Nat)
  | calendar (fault : CalendarFault)
  /-- A question without choices cannot be answered. -/
  | noChoice
  | alreadyStarted
  | notWaiting
  /-- A run was to be cancelled that had already broken off. -/
  | abandoned (reason : String)
  /-- An error was to be raised in a run that had already broken off. -/
  | script (error : ScriptError)
  /-- Settings have keys that are no texts. -/
  | keys (fault : KeyFault)
  /-- Something was to be done with the result of a run that had none. -/
  | noResult
  deriving DecidableEq, Repr

/-- The wording of a defect. -/
def Defect.message : Defect → String
  | overflow o => o.message
  | path fault => fault.message
  | file e => e.message
  | undecodable e => e.message
  | notInteger text => notIntegerMessage 10 text
  | noDigits base => notIntegerMessage base ""
  | nullInPath => "embedded null byte"
  | noCharacter n =>
    if n < 0x80000000 then "chr() arg not in range(0x110000)"
    else "Python int too large to convert to C int"
  | calendar fault => fault.message
  | noChoice => "tuple index out of range"
  | alreadyStarted => "run has already been started"
  | notWaiting => "run is not waiting for a response"
  | abandoned reason => reason
  | script e => e.fault.message
  | keys fault => fault.message
  | noResult => "'NoneType' object has no attribute 'succeeded'"

end InstallScript
