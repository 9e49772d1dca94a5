import InstallScript.Calendar
import InstallScript.Number.Basic

/-!
Why a YAML text gives no data. Most texts that cannot be read are ill-formed; a few are well-formed and
hold something for which there is no value.
-/

namespace InstallScript.Yaml

/-- Why a text gives no data. -/
inductive Fault
  | illFormed
  /-- A whole number has the mark of its base and no digits. -/
  | noDigits (base : Nat)
  /-- A character is given by a number that no character has. -/
  | noCharacter (number : Nat)
  /-- A day or a moment is in no calendar. -/
  | calendar (fault : CalendarFault)
  /-- A number with a fraction is too large. -/
  | overflow (overflow : Overflow)
  deriving DecidableEq, Repr

/-- What comes of reading. -/
abbrev Reading := Except Fault

/-- What has been found, where it has to be there. -/
def demand {α : Type} : Option α → Reading α
  | some found => .ok found
  | none => .error .illFormed

end InstallScript.Yaml
