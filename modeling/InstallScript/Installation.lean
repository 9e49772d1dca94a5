import InstallScript.FileTree.Copy
import InstallScript.Host
import InstallScript.Version

/-!
Installations: the host of scripts that install a mod into a game. Reads go to the directory of the
mod, from the current directory of the run on, and writes to the directory of the game, perhaps
below a fixed directory in it. No path leads out of the two.

Changes of settings files are only queued here; see `InstallScript.Installation.Settings`.
-/

namespace InstallScript

/-- A change of a settings file that is still to be made. The file is named by its components below
the directory of the game. -/
structure IniEdit where
  file : List String
  header : String
  key : String
  value : String
  deriving DecidableEq, Repr

/-- The state of an installation. -/
structure Installation where
  files : FileTree
  /-- The directory of the mod. -/
  source : Path
  /-- The directory of the game. -/
  target : Path
  gameVersion : String := "0"
  /-- The directory within that of the game which receives all writes. -/
  installRoot : List String := []
  /-- What has been copied to, below the directory of the game. -/
  installed : List (List String) := []
  pendingEdits : List IniEdit := []
  deriving DecidableEq, Repr

/-- The text given for a parameter. -/
def Arguments.string (arguments : Arguments) (name : String) : String :=
  match arguments.lookup name with
  | some (.string s) => s
  | _ => ""

/-- Whether a parameter is given as a yes; what is not given counts as one. -/
def Arguments.flag (arguments : Arguments) (name : String) : Bool :=
  match arguments.lookup name with
  | some (.bool b) => b
  | _ => true

/-- The value given for a parameter, as text. -/
def Arguments.textOf (arguments : Arguments) (name : String) : String :=
  ((arguments.lookup name).getD .void).text

namespace Installation

/-- What a handler is given besides its arguments: the current directory and the installation. -/
abbrev Handler := Arguments → List String → Installation → Response Installation

/-- The response of a handler that changes nothing besides the installation. -/
def respond (i : Installation) (directory : List String) (outcome : Outcome) :
    Response Installation :=
  { outcome, host := i, directory }

/-- Nothing, as the result of a handler. -/
def nothing : Outcome := .value .none

/-- A place in the mod. -/
def sourcePath (i : Installation) (directory : List String) (path : String) :
    Except Outcome Path :=
  match resolvePath path directory with
  | .ok parts => .ok (i.source.join parts)
  | .error fault => .error (.failure fault.message)

/-- A place in the game, by its components below the directory of the game. -/
def targetParts (i : Installation) (path : String) : Except Outcome (List String) :=
  match resolvePath path [] with
  | .ok parts => .ok (i.installRoot ++ parts)
  | .error fault => .error (.failure fault.message)

/-- What a path leads to, if anything. A name that is too long is a defect. -/
def look (i : Installation) (p : Path) : Except Outcome (Option FileEntry) :=
  (i.files.look p).mapError fun e => .crash (.file e)

/-- The outcome of a handler, and the installation that it leaves. -/
def conclude (i : Installation) (directory : List String) (result : Except Outcome Outcome) :
    Response Installation :=
  i.respond directory (match result with
    | .ok outcome => outcome
    | .error outcome => outcome)

/-! ## Looking -/

/-- Whether there is a file or directory in the mod. -/
def fileExists : Handler := fun arguments directory i =>
  i.conclude directory do
    let p ← i.sourcePath directory (arguments.string "path")
    let found ← i.look p
    return .value (.bool found.isSome)

/-- Makes a directory of the mod the current one. -/
def setDirectory : Handler := fun arguments directory i =>
  let path := arguments.string "path"
  let checked : Except Outcome Unit := do
    let p ← i.sourcePath directory path
    let found ← i.look p
    if found = some .directory then return ()
    else throw (.failure s!"no such directory in the mod: {path}")
  match checked, resolvePath path directory with
  | .ok _, .ok parts => i.respond parts nothing
  | .ok _, .error fault => i.respond directory (.crash (.path fault))
  | .error outcome, _ => i.respond directory outcome

/-- The version of the game. -/
def reportVersion : Handler := fun _ directory i =>
  i.respond directory (.value (.text i.gameVersion))

/-- Compares two versions. -/
def compareVersion : Handler := fun arguments directory i =>
  match compareVersions (arguments.string "left") (arguments.string "right") with
  | .ok sign => i.respond directory (.value (.number (.int sign)))
  | .error d => i.respond directory (.crash d)

/-! ## Changing files -/

/-- Whether a copy may be made, and from where to where. -/
def copyPlan (i : Installation) (directory : List String) (source destination : String)
    (overwrite : Bool) : Except Outcome (Path × List String) := do
  let src ← i.sourcePath directory source
  let parts ← i.targetParts destination
  if (← i.look src).isNone then throw (.failure s!"source not found: {source}")
  if (← i.look (i.target.join parts)).isSome && !overwrite then
    throw (.failure s!"destination exists: {destination}")
  return (src, parts)

/-- The files after a copy, and what went wrong. Directories that are missing above the target are
made. -/
def copyInto (files : FileTree) (src dst : Path) : FileTree × Option CopyError :=
  match files.ensureDirectory dst.parent with
  | (files', some e) => (files', some (.file e))
  | (files', none) => files'.copy src dst

/-- Copies a file or a directory from the mod to the game. -/
def copy : Handler := fun arguments directory i =>
  let source := arguments.string "source"
  let destination := arguments.string "destination"
  match i.copyPlan directory source destination (arguments.flag "overwrite") with
  | .error outcome => i.respond directory outcome
  | .ok (src, parts) =>
    let dst := i.target.join parts
    match copyInto i.files src dst with
    | (files, some e) =>
      respond { i with files } directory
        (.failure s!"cannot copy {source} to {destination}: {e.reason}")
    | (files, none) =>
      { outcome := nothing, directory,
        host := { i with files, installed := i.installed ++ [parts] }
        log := [⟨.debug, .files, s!"copied {src.text} -> {dst.text}"⟩] }

/-- Makes a directory in the game, and those that are missing above it. -/
def createDirectory : Handler := fun arguments directory i =>
  let path := arguments.string "path"
  match i.targetParts path with
  | .error outcome => i.respond directory outcome
  | .ok parts =>
    match i.files.ensureDirectory (i.target.join parts) with
    | (files, none) => respond { i with files } directory nothing
    | (files, some e) =>
      respond { i with files } directory
        (.failure s!"cannot create {path}: {e.fault.message}")

/-- Deletes a file of the game. -/
def deleteFile : Handler := fun arguments directory i =>
  let path := arguments.string "path"
  let deleted : Except Outcome FileTree := do
    let p := i.target.join (← i.targetParts path)
    match ← i.look p with
    | some (.file _) =>
      (i.files.remove p).mapError fun e => .failure s!"cannot delete {path}: {e.fault.message}"
    | _ => throw (.failure s!"no such file: {path}")
  match deleted with
  | .ok files => respond { i with files } directory nothing
  | .error outcome => i.respond directory outcome

/-- Queues a change of a settings file. -/
def editIni : Handler := fun arguments directory i =>
  match i.targetParts (arguments.string "file") with
  | .error outcome => i.respond directory outcome
  | .ok file =>
    let edit : IniEdit :=
      ⟨file, arguments.string "section", arguments.string "key", arguments.textOf "value"⟩
    respond { i with pendingEdits := i.pendingEdits ++ [edit] } directory nothing

/-! ## Talking -/

/-- Asks for a yes or a no. -/
def confirm : Handler := fun arguments directory i =>
  i.respond directory (.question ⟨"Confirm", .confirm, arguments.string "message", []⟩)

/-- The pieces of a text between bars, after the characters already read of the first one, last
character first. -/
def barPieces : List Char → List Char → List (List Char)
  | read, [] => [read.reverse]
  | read, c :: rest =>
    if c = '|' then read.reverse :: barPieces [] rest else barPieces (c :: read) rest

/-- The options in a text: what stands between bars and is not blank. -/
def optionsIn (s : String) : List String :=
  (((barPieces [] s.toList).map Text.strip).filter (!·.isEmpty)).map String.ofList

/-- Asks for one of several options. -/
def choose : Handler := fun arguments directory i =>
  let choices := optionsIn (arguments.string "options")
  if choices.isEmpty then i.respond directory (.failure "no options to choose from")
  else i.respond directory (.question ⟨"Choose", .choice, arguments.string "message", choices⟩)

/-- Warns. -/
def warn : Handler := fun arguments directory i =>
  { i.respond directory nothing with warnings := [{ message := arguments.textOf "message" }] }

/-- Fails. -/
def fail : Handler := fun arguments directory i =>
  i.respond directory (.failure (arguments.textOf "message"))

/-- The handler for a function, letter case aside. -/
def handler? (handlers : List (String × Handler)) (name : String) : Option Handler :=
  (handlers.find? fun entry => Text.fold entry.1 = Text.fold name).map (·.2)

/-- The host with the given handlers. A function without a handler does nothing. -/
def host (handlers : List (String × Handler)) : Host Installation := fun f arguments directory i =>
  match handler? handlers f.name with
  | some handle => handle arguments directory i
  | none => i.respond directory nothing

end Installation

end InstallScript
