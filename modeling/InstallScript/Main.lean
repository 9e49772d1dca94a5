import InstallScript.CommandLine

/-!
The program. It takes in the files that a command names, follows the command on them, and writes
back what has changed. Questions are put on the terminal one at a time.
-/

namespace InstallScript.CommandLine

/-- How the command line is used. -/
def usage : String :=
  "usage: installscript [-h] [-v] COMMAND ...\n" ++
  "  check [-d NAME] [-c FILE] [--json] SCRIPT\n" ++
  "  format [-d NAME] [-c FILE] SCRIPT\n" ++
  "  run -s DIR -t DIR [-d NAME] [-y] [-c FILE] [--game-version VERSION] SCRIPT\n" ++
  "  dialects\n"

/-- The paths that a command reads. -/
def namedPaths : Command → List String
  | .check file _ config _ => file :: config.toList
  | .format file _ config => file :: config.toList
  | .run file source target _ config _ _ => file :: source :: target :: config.toList
  | .dialects => []

/-- The path that leads to a place. -/
def pathTo : List String → Path
  | "/" :: components => ⟨"/", components⟩
  | components => ⟨"", components⟩

/-! ## Files -/

/-- Takes in what stands on disk, with what is below it if it is to be taken in whole. -/
partial def takeIn (tree : FileTree) (place : List String) (whole : Bool) : IO FileTree := do
  let onDisk := System.mkFilePath [(pathTo place).text]
  if ← onDisk.isDir then
    let mut grown := tree.put place .directory
    if whole then
      for entry in ← onDisk.readDir do
        grown ← takeIn grown (place ++ [entry.fileName]) true
    return grown
  else if ← onDisk.pathExists then
    return tree.put place (.file (← IO.FS.readBinFile onDisk).toList)
  else return tree

/-- Takes in what a path leads to, and what it leads through. -/
def takePath (tree : FileTree) (p : Path) : IO FileTree := do
  let mut grown := tree
  for length in List.range (p.components.length + 1) do
    match grown.locate ⟨p.root, p.components.take length⟩ with
    | .ok place => grown ← takeIn grown place (length == p.components.length)
    | .error _ => pure ()
  return grown

/-- Writes back what has changed. -/
def writeBack (before after : FileTree) : IO Unit := do
  for (place, _) in before.entries do
    if (after.get? place).isNone then
      IO.FS.removeFile (pathTo place).text
  for (place, entry) in after.entries do
    if before.get? place ≠ some entry then
      match entry with
      | .directory => IO.FS.createDirAll (pathTo place).text
      | .file content => IO.FS.writeBinFile (pathTo place).text ⟨content.toArray⟩

/-! ## Terminal -/

/-- What the user replies to a question that is put until a line replies to it. -/
partial def replyTo (p : Prompt) : IO (Except Defect Reply) := do
  let output ← IO.getStdout
  output.putStr (Terminal.question p)
  output.flush
  let line ← (← IO.getStdin).getLine
  if line.isEmpty then return .ok .abort
  match Terminal.reply? p (String.ofList (line.toList.takeWhile (· ≠ '\n'))) with
  | .ok none => replyTo p
  | .ok (some reply) => return .ok reply
  | .error defect => return .error defect

/-- Goes on with a run, asking the user, to its end. -/
partial def converse (launch : Launch) (report : Report) (session : Session Installation) :
    IO (Except Stop Response) := do
  match report with
  | .prompt p =>
    IO.print (Terminal.heading p)
    match ← replyTo p with
    | .ok reply =>
      let (next, after) := session.resume reply
      converse launch next after
    | .error defect => return launch.response "" (.raised defect) session
  | ended => return launch.response "" ended session

/-! ## Ends -/

/-- What a command that has no exit code of its own tells. -/
def stopMessage : Stop → String
  | .usage _ => usage
  | .crash defect => s!"Error: {defect.message}\n"
  | .unread (.script e) => e.diagnostic.format ++ "\n"
  | .unread .noEnd => s!"Error: {noEndMessage}\n"
  | .unread .tooDeep => "Error: the script is nested too deeply\n"
  | .unfinished => "Error: the run has come to no end\n"

/-- Shows what a command leaves behind, and gives the exit code. -/
def conclude (before : FileTree) : Except Stop Response → IO UInt32
  | .ok response => do
    writeBack before response.files
    IO.print response.output
    IO.eprint response.errors
    return response.exit.toUInt32
  | .error stop => do
    IO.eprint (stopMessage stop)
    return 1

end InstallScript.CommandLine

open InstallScript InstallScript.CommandLine in
/-- Follows the arguments of the command line. -/
def main (args : List String) : IO UInt32 := do
  match Invocation.ofArguments args with
  | .error .help =>
    IO.print usage
    return 0
  | .error .misuse =>
    IO.eprint usage
    return 2
  | .ok asked =>
    let mut files : FileTree := {}
    for name in namedPaths asked.command do
      files ← takePath files (Path.ofString name)
    match ({ files : Environment }).invoke asked with
    | .error stop => conclude files (.error stop)
    | .ok (.done response) => conclude files (.ok response)
    | .ok (.launched launch) =>
      if launch.unattended then conclude files (launch.complete "")
      else
        let (report, session) := launch.session.start
        conclude files (← converse launch report session)
