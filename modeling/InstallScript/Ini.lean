import InstallScript.Diagnostic
import InstallScript.FileTree.Copy
import InstallScript.Text.Utf8

/-!
Settings files: sections under headers in square brackets, each with options and their values, and a
default section that stands before all others. The order of sections and options is kept. This
module holds the files as data and what editing them means; `InstallScript.Ini.Read` and
`InstallScript.Ini.Write` are their text form.
-/

namespace InstallScript

/-- Options by name, with values of any type. -/
abbrev IniOptions (α : Type) := List (String × α)

/-- A settings file with values of any type. -/
structure IniFile (α : Type) where
  defaults : IniOptions α := []
  sections : List (String × IniOptions α) := []
  deriving DecidableEq, Repr

/-- The header of the default section. -/
def defaultHeader : String := "DEFAULT"

variable {α β : Type}

/-- Options with one of them changed or added. -/
def IniOptions.set : IniOptions α → String → α → IniOptions α
  | [], name, value => [(name, value)]
  | (key, old) :: rest, name, value =>
    if key = name then (key, value) :: rest else (key, old) :: IniOptions.set rest name value

/-- Options with one of them changed in place, if it is there. -/
def IniOptions.adjust (options : IniOptions α) (name : String) (f : α → α) : IniOptions α :=
  options.map fun (key, value) => if key = name then (key, f value) else (key, value)

namespace IniFile

/-- The options under a header, if it is there. The default section always is. -/
def options? (ini : IniFile α) (header : String) : Option (IniOptions α) :=
  if header = defaultHeader then some ini.defaults else ini.sections.lookup header

/-- The value of an option. -/
def get? (ini : IniFile α) (header name : String) : Option α :=
  (ini.options? header).bind fun options => options.lookup name

/-- Changes the options under a header that is there. -/
def mapOptions (ini : IniFile α) (header : String) (f : IniOptions α → IniOptions α) : IniFile α :=
  if header = defaultHeader then { ini with defaults := f ini.defaults }
  else { ini with
    sections := ini.sections.map fun (key, options) =>
      if key = header then (key, f options) else (key, options) }

/-- Adds a section without options at the end. -/
def addSection (ini : IniFile α) (header : String) : IniFile α :=
  { ini with sections := ini.sections ++ [(header, [])] }

/-- Changes all values. -/
def mapValues (ini : IniFile α) (f : α → β) : IniFile β where
  defaults := ini.defaults.map fun (name, value) => (name, f value)
  sections := ini.sections.map fun (header, options) =>
    (header, options.map fun (name, value) => (name, f value))

end IniFile

/-- Why a settings file cannot be read or changed. -/
inductive IniFault
  /-- The first line that says something stands under no header. -/
  | noHeader (line : Nat) (text : String)
  | duplicateSection (header : String) (line : Nat)
  | duplicateOption (header option : String) (line : Nat)
  /-- Lines that are neither headers nor options. -/
  | badLines (lines : List (Nat × String))
  | undecodable (error : Text.Utf8Error)
  /-- The header of the default section is not for other sections. -/
  | reservedHeader
  | file (error : FileError)
  deriving DecidableEq, Repr

/-- The wording of a fault in the file that a path leads to. -/
def IniFault.message (path : Path) : IniFault → String
  | noHeader line text =>
    s!"File contains no section headers.\nfile: {path.shown}, line: {line}\n{Text.quoted text}"
  | duplicateSection header line =>
    s!"While reading from {path.shown} [line {padLeft 2 line}]: " ++
      s!"section {Text.quoted header} already exists"
  | duplicateOption header option line =>
    s!"While reading from {path.shown} [line {padLeft 2 line}]: " ++
      s!"option {Text.quoted option} in section {Text.quoted header} already exists"
  | badLines lines =>
    let shown := lines.map fun (line, text) => s!"\n\t[line {padLeft 2 line}]: {Text.quoted text}"
    s!"Source contains parsing errors: {path.shown}" ++ String.join shown
  | undecodable e => e.message
  | reservedHeader => s!"Invalid section name: {Text.quoted defaultHeader}"
  | file e => e.message

/-- A settings file. -/
abbrev Ini := IniFile String

/-- Sets an option. A section that is missing is added. The empty header stands for the default
section as far as options go, but a section of its own is added for it too. -/
def Ini.edit (ini : Ini) (header name value : String) : Except IniFault Ini :=
  let target := if header = "" then defaultHeader else header
  let set (ini : Ini) : Ini := ini.mapOptions target fun options => options.set name value
  if (ini.sections.lookup header).isSome then .ok (set ini)
  else if header = defaultHeader then .error .reservedHeader
  else .ok (set (ini.addSection header))

end InstallScript
