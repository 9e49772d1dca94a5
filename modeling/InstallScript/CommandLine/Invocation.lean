import InstallScript.CommandLine.Usage

/-!
What the command line is asked to do.
-/

namespace InstallScript.CommandLine

/-- A command. -/
inductive Command
  /-- Looks for mistakes in a script. -/
  | check (file : String) (dialect config : Option String) (json : Bool)
  /-- Prints a script in canonical form. -/
  | format (file : String) (dialect config : Option String)
  /-- Runs a script. -/
  | run (file source target : String) (dialect config : Option String) (yes : Bool)
    (gameVersion : String)
  /-- Lists the dialects. -/
  | dialects
  deriving DecidableEq, Repr

/-- A command, and whether all log records are shown. -/
structure Invocation where
  verbose : Bool
  command : Command
  deriving DecidableEq, Repr

/-- The options in front of the command. -/
def globalOptions : List OptionSpec :=
  [helpOption, { key := "verbose", spellings := ["-v", "--verbose"] }]

/-- The options of all commands that read a script. -/
def scriptOptions : List OptionSpec :=
  [helpOption, ⟨"dialect", ["-d", "--dialect"], true⟩, ⟨"config", ["-c", "--config"], true⟩]

/-- The options of checking. -/
def checkOptions : List OptionSpec :=
  scriptOptions ++ [{ key := "json", spellings := ["--json"] }]

/-- The options of running. -/
def runOptions : List OptionSpec :=
  scriptOptions ++ [⟨"source", ["-s", "--source"], true⟩, ⟨"target", ["-t", "--target"], true⟩,
    { key := "yes", spellings := ["-y", "--yes"] },
    ⟨"game-version", ["--game-version"], true⟩]

/-- What is found in the arguments of a command, which have to name one script. -/
def scriptArguments (specs : List OptionSpec) (args : List String) :
    Except UsageStop (String × Parsed) :=
  match follow specs (classifyAll specs args) {} with
  | .error stop => .error stop
  | .ok p =>
    match p.values with
    | [file] => .ok (file, p)
    | _ => .error .misuse

/-- A command by its name and its arguments, and whether something has no place in them. -/
def Command.ofArguments (name : String) (args : List String) : Except UsageStop (Command × Bool) :=
  if name = "check" then do
    let (file, p) ← scriptArguments checkOptions args
    return (.check file (p.option? "dialect") (p.option? "config") (p.hasOption "json"), p.surplus)
  else if name = "format" then do
    let (file, p) ← scriptArguments scriptOptions args
    return (.format file (p.option? "dialect") (p.option? "config"), p.surplus)
  else if name = "run" then do
    let (file, p) ← scriptArguments runOptions args
    match p.option? "source", p.option? "target" with
    | some source, some target =>
      return (.run file source target (p.option? "dialect") (p.option? "config")
        (p.hasOption "yes") ((p.option? "game-version").getD "0"), p.surplus)
    | _, _ => throw .misuse
  else if name = "dialects" then do
    let p ← follow [helpOption] (classifyAll [helpOption] args) {}
    return (.dialects, p.surplus || !p.values.isEmpty)
  else .error .misuse

/-- What arguments ask for. -/
def Invocation.ofArguments (args : List String) : Except UsageStop Invocation := do
  if hasAmbiguity globalOptions args then throw .misuse
  let (p, name, rest) ← followToCommand globalOptions args {}
  let (command, surplus) ← Command.ofArguments name rest
  if p.surplus || surplus then throw .misuse
  return ⟨p.hasOption "verbose", command⟩

end InstallScript.CommandLine
