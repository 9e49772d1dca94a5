import InstallScript.Ini

/-!
Writing settings files: the default section if it has options, then the others, each with a header,
a line for each option, and an empty line. Further lines of a value are indented.
-/

namespace InstallScript.Ini

/-- A value as it is written: each line but the first begins with a tab. -/
def writtenValue (value : String) : String :=
  String.ofList (value.toList.flatMap fun c => if c = '\n' then ['\n', '\t'] else [c])

/-- An option as it is written. -/
def writtenOption (name value : String) : String :=
  name ++ " = " ++ writtenValue value ++ "\n"

/-- A section as it is written. -/
def writtenSection (header : String) (options : IniOptions String) : String :=
  "[" ++ header ++ "]\n" ++
    String.join (options.map fun (name, value) => writtenOption name value) ++ "\n"

/-- A settings file as it is written. -/
def text (ini : Ini) : String :=
  (if ini.defaults.isEmpty then "" else writtenSection defaultHeader ini.defaults) ++
    String.join (ini.sections.map fun (header, options) => writtenSection header options)

end InstallScript.Ini
