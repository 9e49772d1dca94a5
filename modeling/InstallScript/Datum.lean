import InstallScript.Calendar
import InstallScript.Number.Basic
import InstallScript.Text.Quoted

/-!
Plain data, as it comes from configuration and dialect files and passes between a script and its
host. `Datum.plain` and `Datum.shown` are the two ways in which messages write data: bare, and with
text in quotes.
-/

namespace InstallScript

/-- A piece of plain data. Mappings keep the order of their entries. -/
inductive Datum
  | none
  | bool (value : Bool)
  | number (value : Number)
  | text (value : String)
  | list (items : List Datum)
  | mapping (entries : List (Datum × Datum))
  | date (value : Date)
  | moment (value : Moment)

namespace Datum

/-- The name of the kind of a datum. -/
def kindName : Datum → String
  | .none => "NoneType"
  | .bool _ => "bool"
  | .number (.int _) => "int"
  | .number (.float _) => "float"
  | .text _ => "str"
  | .list _ => "list"
  | .mapping _ => "dict"
  | .date _ => "date"
  | .moment _ => "datetime"

/-- The name of the kind of a datum with what it belongs to: some kinds are those of the calendar. -/
def qualifiedKind : Datum → String
  | .date d => "datetime." ++ kindName (.date d)
  | .moment m => "datetime." ++ kindName (.moment m)
  | other => other.kindName

mutual

/-- A datum as messages show it, with text in quotes. -/
def shown : Datum → String
  | .none => "None"
  | .bool value => if value then "True" else "False"
  | .number value => value.text
  | .text value => Text.quoted value
  | .list items => "[" ++ ", ".intercalate (shownItems items) ++ "]"
  | .mapping entries => "\x7b" ++ ", ".intercalate (shownEntries entries) ++ "\x7d"
  | .date d => d.shown
  | .moment m => m.shown

/-- The items of a list, each as messages show it. -/
def shownItems : List Datum → List String
  | [] => []
  | item :: rest => shown item :: shownItems rest

/-- The entries of a mapping, each as messages show it. -/
def shownEntries : List (Datum × Datum) → List String
  | [] => []
  | (key, value) :: rest => (shown key ++ ": " ++ shown value) :: shownEntries rest

end

/-- A datum as bare text. -/
def plain : Datum → String
  | .text value => value
  | .date d => d.plain
  | .moment m => m.plain
  | other => other.shown

/-- Data that counts as a yes: all but nothing, zero and what is empty. -/
def isTruthy : Datum → Bool
  | .none => false
  | .bool value => value
  | .number value => !value.isZero
  | .text value => value ≠ ""
  | .list items => !items.isEmpty
  | .mapping entries => !entries.isEmpty
  | .date _ | .moment _ => true

/-- The value at a text key; the last of several counts. -/
def entry? (entries : List (Datum × Datum)) (name : String) : Option Datum :=
  entries.reverse.findSome? fun (key, value) =>
    match key with
    | .text k => if k = name then some value else Option.none
    | _ => Option.none

/-- An entry with a text key. -/
def named (name : String) (value : Datum) : Datum × Datum := (.text name, value)

end Datum

end InstallScript
