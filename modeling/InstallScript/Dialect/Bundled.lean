import InstallScript.Dialect

/-!
The dialects that come with the library.
-/

namespace InstallScript.Dialect

/-- A parameter that takes a text. -/
def textParam (name : String) : ParamSpec := { name, kind := .string }

/-- A parameter that takes any value. -/
def anyParam (name : String) : ParamSpec := { name }

/-- Whether a copy may replace what is there; it may unless told otherwise. -/
def overwriteParam : ParamSpec := ⟨"overwrite", .bool, some (.bool true)⟩

/-- Asks for a yes or a no. -/
def confirmFunction : FunctionSpec :=
  ⟨"Confirm", [textParam "message"], .bool, .fatal, true, "Ask the user a yes/no question."⟩

/-- Warns. -/
def warnFunction : FunctionSpec :=
  ⟨"Warn", [anyParam "message"], .void, .recoverable, false, "Record a warning and continue."⟩

/-- Fails. -/
def failFunction : FunctionSpec :=
  ⟨"Fail", [anyParam "message"], .void, .fatal, false, "Stop the install with an error."⟩

/-! ## State of Decay -/

/-- The functions of State of Decay scripts. -/
def stateOfDecayCatalog : Catalog := ⟨[
  ⟨"FileExists", [textParam "path"], .bool, .recoverable, false,
    "True if the path exists in the mod, relative to the current directory."⟩,
  ⟨"Copy", [textParam "source", textParam "destination", overwriteParam], .void, .fatal, false,
    "Copy a file or directory from the mod into the game directory."⟩,
  ⟨"CreateDirectory", [textParam "path"], .void, .fatal, false,
    "Create a directory (and its parents) in the game directory."⟩,
  ⟨"DeleteFile", [textParam "path"], .void, .recoverable, false,
    "Delete a file from the game directory."⟩,
  ⟨"SetDirectory", [textParam "path"], .void, .fatal, false,
    "Change the current directory inside the mod."⟩,
  ⟨"EditIni", [textParam "file", textParam "section", textParam "key", anyParam "value"], .void,
    .recoverable, false, "Queue an INI setting change, written when the script succeeds."⟩,
  confirmFunction,
  ⟨"Choose", [textParam "message", textParam "options"], .string, .fatal, true,
    "Ask the user to pick one of the |-separated options."⟩,
  ⟨"GameVersion", [], .string, .fatal, false, "Version of the installed game."⟩,
  ⟨"CompareVersion", [textParam "left", textParam "right"], .number, .fatal, false,
    "-1, 0 or 1 as left is older than, equal to or newer than right."⟩,
  warnFunction,
  failFunction]⟩

/-- Scripts with loops and keyword arguments, in which letter case does not count, and settings
files that are changed when a script has succeeded. -/
def stateOfDecay : Dialect where
  definition := {
    name := "stateofdecay"
    grammar := Grammar.second
    catalog := stateOfDecayCatalog
    truthiness := { falseStrings := ["false", "no"] }
    description := "State of Decay mod install scripts" }
  hostName := "StateOfDecayFunctionProxy"
  handlers := [
    ("FileExists", Installation.fileExists), ("Copy", Installation.copy),
    ("CreateDirectory", Installation.createDirectory), ("DeleteFile", Installation.deleteFile),
    ("SetDirectory", Installation.setDirectory), ("EditIni", Installation.editIni),
    ("Confirm", Installation.confirm), ("Choose", Installation.choose),
    ("GameVersion", Installation.reportVersion),
    ("CompareVersion", Installation.compareVersion), ("Warn", Installation.warn),
    ("Fail", Installation.fail)]
  finisher := Installation.settleEdits

/-! ## Monster Hunter: World -/

/-- The functions of Monster Hunter: World scripts. -/
def monsterHunterWorldCatalog : Catalog := ⟨[
  ⟨"FileExists", [textParam "path"], .bool, .recoverable, false,
    "True if the path exists in the mod."⟩,
  ⟨"Copy", [textParam "source", textParam "destination", overwriteParam], .void, .recoverable,
    false, "Copy a file from the mod into nativePC."⟩,
  ⟨"CreateDirectory", [textParam "path"], .void, .fatal, false,
    "Create a directory under nativePC."⟩,
  confirmFunction,
  warnFunction,
  failFunction]⟩

/-- Scripts without loops and keyword arguments, in which letter case counts for variables. All
writes go to one directory of the game, and a copy that fails only warns. -/
def monsterHunterWorld : Dialect where
  definition := {
    name := "monsterhunterworld"
    grammar := Grammar.first
    catalog := monsterHunterWorldCatalog
    caseSensitiveNames := true
    description := "Monster Hunter World mod install scripts" }
  hostName := "MonsterHunterWorldFunctionProxy"
  handlers := [
    ("FileExists", Installation.fileExists), ("Copy", Installation.copy),
    ("CreateDirectory", Installation.createDirectory), ("Confirm", Installation.confirm),
    ("Warn", Installation.warn), ("Fail", Installation.fail)]
  installRoot := ["nativePC"]

/-- The dialects that come with the library. -/
def bundled : List Dialect := [stateOfDecay, monsterHunterWorld]

end InstallScript.Dialect
