import InstallScript.Ini.Read
import InstallScript.Ini.Write
import InstallScript.Installation
import InstallScript.Run.Session

/-!
The queued changes of settings files. They are made when the run has succeeded, file by file; a file
that cannot be changed is left as it is, and a warning says so. After any other run they are dropped.
-/

namespace InstallScript.Installation

/-- The settings in a file. There are none if it does not exist or is a directory. -/
def readSettings (files : FileTree) (p : Path) : Except IniFault Ini :=
  match files.look p with
  | .error e => .error (.file e)
  | .ok (some (.file content)) => Ini.ofBytes content
  | .ok _ => .ok {}

/-- Settings after changes, one after another. -/
def editSettings : Ini → List IniEdit → Except IniFault Ini
  | ini, [] => .ok ini
  | ini, e :: rest =>
    match ini.edit e.header e.key e.value with
    | .ok ini' => editSettings ini' rest
    | .error fault => .error fault

/-- The files after changes of one of them, and what went wrong. -/
def updateSettings (files : FileTree) (p : Path) (edits : List IniEdit) :
    FileTree × Option IniFault :=
  match (readSettings files p).bind (editSettings · edits) with
  | .error fault => (files, some fault)
  | .ok ini =>
    match files.ensureDirectory p.parent with
    | (files', some e) => (files', some (.file e))
    | (files', none) =>
      match files'.write p (Text.encodeUtf8 ini.text) with
      | .ok files'' => (files'', none)
      | .error e => (files', some (.file e))

/-- The files that changes are queued for, in the order of the first change of each. -/
def editedFiles (edits : List IniEdit) : List (List String) :=
  (edits.map (·.file)).eraseDups

/-- Changes one file. A failure leaves a warning with the result and with the run. -/
def updateFile (edits : List IniEdit) (state : RunResult × World Installation)
    (file : List String) : RunResult × World Installation :=
  let (result, world) := state
  let own := edits.filter fun e => e.file = file
  let path := world.host.target.join file
  match updateSettings world.host.files path own with
  | (files, none) =>
    let written := { world with host := { world.host with files } }
    (result, written.note .debug .settings
      s!"applied {own.length} INI edit(s) to {partsText file}")
  | (files, some fault) =>
    let reason := fault.message path
    let message := s!"EditIni(): could not update {partsText file}: {reason}"
    let warning := world.context.warningFor message none "W501"
    let noted := { world with host := { world.host with files } }.note .warning .settings
      s!"could not apply INI edits to {partsText file}: {reason}"
    ({ result with warnings := result.warnings ++ [warning] },
      noted.mapContext fun c => c.addWarning message none "W501")

/-- The world without queued changes. -/
def dropEdits (world : World Installation) : World Installation :=
  { world with host := { world.host with pendingEdits := [] } }

/-- Makes the queued changes if the run has succeeded, and drops them otherwise. Without a result
there is nothing to go by. -/
def settleEdits : Finisher Installation := fun result world =>
  let edits := world.host.pendingEdits
  if edits.isEmpty then .ok (result, world)
  else
    match result with
    | none => .error .noResult
    | some r =>
      if r.status = .success then
        let (r', world') := (editedFiles edits).foldl (updateFile edits) (r, world)
        .ok (some r', dropEdits world')
      else
        let noted := world.note .info .settings
          s!"discarding {edits.length} INI edit(s) after {r.status.name} run"
        .ok (result, dropEdits noted)

end InstallScript.Installation
