import InstallScript.CommandLine.Invocation
import InstallScript.CommandLine.Terminal
import InstallScript.Json
import InstallScript.Load
import InstallScript.Registry
import InstallScript.Tree.Print

/-!
The command line: what each command does with the files that it finds and with what the user types.
The exit code is 0 on success, 1 after errors or a failed run, and 2 after a run that was cancelled.
-/

namespace InstallScript.CommandLine

/-- What a command leaves behind. -/
structure Response where
  exit : Nat
  output : String := ""
  errors : String := ""
  files : FileTree

/-- Why a command has no exit code of its own. -/
inductive Stop
  | usage (stop : UsageStop)
  | crash (defect : Defect)
  /-- The reading of a script has come to no end of its own. -/
  | unread (error : ParseError)
  /-- A run that was driven has come to no end. -/
  | unfinished
  deriving DecidableEq, Repr

/-- A run of a script that a command has come to. -/
structure Launch where
  session : Session Installation
  level : LogLevel
  /-- Nobody is asked. -/
  unattended : Bool

/-- How far a command has come. -/
inductive Progress
  | done (response : Response)
  | launched (launch : Launch)

/-- The place that commands work at. -/
structure Environment where
  files : FileTree
  /-- What the user will type. -/
  input : String := ""

/-! ## Runs -/

/-- The records of a run that are shown. -/
def shownLog (level : LogLevel) (log : Array LogRecord) : String :=
  String.join ((log.toList.filter fun record => level.rank ≤ record.level.rank).map fun record =>
    record.text ++ "\n")

/-- The defects that end a command with a message. -/
def isReported : Defect → Bool
  | .path _ | .undecodable _ | .notInteger _ => true
  | _ => false

namespace Launch

/-- What a run tells when it is over, after what has been written already. -/
def response (launch : Launch) (written : String) (report : Report) (after : Session Installation) :
    Except Stop Response :=
  let log := shownLog launch.level after.world.log
  let files := after.world.host.files
  match report with
  | .result result =>
    let shown := (result.warnings ++ result.error.toList).map fun d => d.format ++ "\n"
    let exit := match result.status with
      | .success => 0
      | .failed => 1
      | .aborted => 2
    .ok { exit, output := written ++ result.summary ++ "\n", errors := log ++ String.join shown,
          files }
  | .raised defect =>
    if isReported defect then
      .ok { exit := 1, output := written, errors := log ++ s!"Error: {defect.message}\n", files }
    else .error (.crash defect)
  | _ => .error .unfinished

/-- Runs a script to its end; the user will type the input. -/
def complete (launch : Launch) (input : String) : Except Stop Response :=
  if launch.unattended then
    let (report, after, _) := launch.session.drive automatic ()
    launch.response "" report after
  else
    let (report, after, terminal) := launch.session.drive interactive (Terminal.ofInput input)
    launch.response terminal.output report after

end Launch

namespace Environment

/-- Ends with a message. -/
def failWith (env : Environment) (message : String) : Response :=
  { exit := 1, errors := s!"Error: {message}\n", files := env.files }

/-! ## Settings -/

/-- The settings in a file whose name is given and not empty, or else the defaults. -/
def settings (env : Environment) (config : Option String) :
    Except (LoadError ConfigError) Config :=
  match config with
  | none => .ok {}
  | some name => if name = "" then .ok {} else Config.load env.files (Path.ofString name)

/-- The message of an error in a file of settings, or the defect that it is. -/
def settingsMessage (name : String) : LoadError ConfigError → Except Defect String
  | .missing => .ok s!"configuration file not found: {(Path.ofString name).text}"
  | .illFormed => .ok (illFormedMessage (Path.ofString name))
  | .content (.keys fault) => .error (.keys fault)
  | .content e => .ok (e.message (Path.ofString name).text)
  | .defect d => .error d

/-! ## Scripts -/

/-- The bytes of a byte order mark. -/
def byteOrderMark : List UInt8 := [0xEF, 0xBB, 0xBF]

/-- The text of a script file. A byte order mark, or the beginning of one that is all there is, does
not count. -/
def scriptText (bytes : List UInt8) : Except Text.Utf8Error (List Char) :=
  if bytes.isPrefixOf byteOrderMark then .ok []
  else
    let body := if byteOrderMark.isPrefixOf bytes then bytes.drop 3 else bytes
    (Text.decodeUtf8 body).map Text.unifyLineEnds

/-- Reads a script and goes on with it. -/
def withScript (env : Environment) (file : String)
    (next : Source → Except Stop Progress) : Except Stop Progress :=
  let p := Path.ofString file
  match env.files.look p with
  | .error e => .error (.crash (.file e))
  | .ok none => .ok (.done (env.failWith s!"File not found: {p.text}"))
  | .ok (some _) =>
    match env.files.read p with
    | .error e => .error (.crash (.file e))
    | .ok bytes =>
      match scriptText bytes with
      | .error e => .ok (.done (env.failWith e.message))
      | .ok cs => next ⟨cs, some file⟩

/-- Goes on with the dialect that is named, or with the one of the settings. -/
def withDialect (env : Environment) (dialect : Option String) (config : Config)
    (next : Dialect → Except Stop Progress) : Except Stop Progress :=
  let name := match dialect with
    | some given => if given = "" then config.defaultDialect else given
    | none => config.defaultDialect
  match bundledRegistry.get? name with
  | some (_, d) => next d
  | none => .ok (.done (env.failWith (bundledRegistry.unknownMessage name)))

/-- The diagnostic of an error in the text of a script. -/
def parseDiagnostic : ParseError → Except Stop Diagnostic
  | .script e => .ok e.diagnostic
  | e => .error (.unread e)

/-- Ends with a diagnostic. -/
def showError (env : Environment) (d : Diagnostic) : Response :=
  { exit := 1, errors := d.format ++ "\n", files := env.files }

/-! ## Commands -/

/-- What a check tells: as a document, or else each error and their number. -/
def checkReport (env : Environment) (d : Dialect) (file : String) (json : Bool) (script : Block)
    (found : Collector) : Response :=
  let diagnostics := found.diagnostics.toList
  let exit := if found.hasErrors then 1 else 0
  if json then
    { exit, output := (diagnosticsJson diagnostics).pretty ++ "\n", files := env.files }
  else
    let shown := String.join (diagnostics.map fun d => d.format ++ "\n")
    if found.hasErrors then
      { exit, errors := shown ++ s!"{found.errorCount} error(s)\n", files := env.files }
    else
      { exit, errors := shown, files := env.files
        output := s!"OK: {(Path.ofString file).name} - {script.statements.length} statement(s), " ++
          s!"dialect {d.name}\n" }

/-- Checks a script. -/
def check (env : Environment) (config : Config) (file : String) (dialect : Option String)
    (json : Bool) : Except Stop Progress :=
  env.withScript file fun source => env.withDialect dialect config fun d =>
    match d.definition.parse source with
    | .ok script =>
      .ok (.done (env.checkReport d file json script (d.definition.check script source)))
    | .error e =>
      (parseDiagnostic e).map fun shown =>
        .done (if json then
          { exit := 1, output := (diagnosticsJson [shown]).pretty ++ "\n", files := env.files }
        else env.showError shown)

/-- Prints a script in canonical form. -/
def format (env : Environment) (config : Config) (file : String) (dialect : Option String) :
    Except Stop Progress :=
  env.withScript file fun source => env.withDialect dialect config fun d =>
    match d.definition.parse source true with
    | .ok script => .ok (.done { exit := 0, output := script.format, files := env.files })
    | .error e => (parseDiagnostic e).map fun shown => .done (env.showError shown)

/-- Prepares a run of a script on a mod and a game. -/
def launch (env : Environment) (config : Config) (level : LogLevel) (file source target : String)
    (dialect : Option String) (yes : Bool) (gameVersion : String) : Except Stop Progress :=
  env.withScript file fun text => env.withDialect dialect config fun d =>
    match d.definition.compile text with
    | .error (.check diagnostic) => .ok (.done (env.showError diagnostic))
    | .error (.parse e) => (parseDiagnostic e).map fun shown => .done (env.showError shown)
    | .ok script =>
      let i : Installation :=
        { files := env.files, source := Path.ofString source, target := Path.ofString target,
          gameVersion }
      .ok (.launched ⟨d.session config script (d.world text.lines i), level, yes⟩)

/-- A function in the list of dialects. -/
def functionLine (f : FunctionSpec) : String :=
  let flags := f.failure.name ++ (if f.prompt then ", prompt" else "")
  s!"  {f.signature}  [{flags}]\n"

/-- A dialect in the list of dialects. -/
def dialectLines (d : Definition) : String :=
  let description := if d.description = "" then "" else " - " ++ d.description
  s!"{d.name} (grammar {d.grammar.version}){description}\n" ++
    String.join (d.catalog.functions.map functionLine)

/-- Lists the dialects. -/
def dialects (env : Environment) : Response :=
  let listed := bundledRegistry.sorted.map fun entry => dialectLines entry.2.definition
  { exit := 0, output := String.join listed, files := env.files }

/-- The file of settings that a command names. -/
def configOf : Command → Option String
  | .check _ _ config _ => config
  | .format _ _ config => config
  | .run _ _ _ _ config _ _ => config
  | .dialects => none

/-- Does what is asked for, up to the start of a run. -/
def invoke (env : Environment) (asked : Invocation) : Except Stop Progress :=
  let named := configOf asked.command
  match env.settings named with
  | .error e =>
    match settingsMessage (named.getD "") e with
    | .ok message => .ok (.done (env.failWith message))
    | .error defect => .error (.crash defect)
  | .ok config =>
    match asked.command with
    | .check file dialect _ json => env.check config file dialect json
    | .format file dialect _ => env.format config file dialect
    | .run file source target dialect _ yes gameVersion =>
      let level := if asked.verbose then .debug else config.logLevel
      env.launch config level file source target dialect yes gameVersion
    | .dialects => .ok (.done env.dialects)

/-- Follows the arguments of the command line to the end. -/
def perform (env : Environment) (args : List String) : Except Stop Response :=
  match Invocation.ofArguments args with
  | .error stop => .error (.usage stop)
  | .ok asked =>
    match env.invoke asked with
    | .error stop => .error stop
    | .ok (.done response) => .ok response
    | .ok (.launched launch) => launch.complete env.input

end Environment

end InstallScript.CommandLine
