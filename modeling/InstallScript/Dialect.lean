import InstallScript.Check
import InstallScript.Config
import InstallScript.Coverage
import InstallScript.Definition
import InstallScript.Installation.Settings

/-!
Dialects. A dialect is a definition together with the handlers of its functions and with what is
done when a run is over. Two dialects come with the library, see `InstallScript.Dialect.Bundled`.
-/

namespace InstallScript

/-- A dialect whose scripts install mods. -/
structure Dialect where
  definition : Definition
  /-- The name of the host in messages. -/
  hostName : String
  handlers : List (String × Installation.Handler)
  /-- The directory within that of the game which receives all writes. -/
  installRoot : List String := []
  finisher : Finisher Installation := Finisher.idle

/-- The tree of a script in the language of a definition. -/
def Definition.parse (d : Definition) (source : Source) (comments : Bool := false) :
    Except ParseError Block :=
  Block.ofSource (if comments then d.grammar.withComments else d.grammar) source

/-- Checks a script against a definition. -/
def Definition.check (d : Definition) (script : Block) (source : Source) : Collector :=
  (Checker.mk d.catalog d.caseSensitiveNames source.lines).check script

/-- Reads a script and checks it. -/
def Definition.compile (d : Definition) (source : Source) : Except CompileError Block :=
  InstallScript.compile d.catalog d.grammar d.caseSensitiveNames source

/-- The beginning of a run under a definition. -/
def Definition.context (d : Definition) (lines : List String) : Context :=
  { scopes := { caseSensitive := d.caseSensitiveNames }, sourceLines := lines }

namespace Dialect

/-- The name of a dialect. -/
def name (d : Dialect) : String := d.definition.name

/-- The host of a dialect. -/
def host (d : Dialect) : Host Installation := Installation.host d.handlers

/-- How the handlers of a dialect differ from a catalog. -/
def coverage (d : Dialect) (catalog : Catalog) : Coverage :=
  Coverage.of catalog (d.handlers.map (·.1))

/-- What scripts of a dialect are run with. -/
def setting (d : Dialect) (config : Config) : Setting Installation where
  catalog := d.definition.catalog
  host := d.host
  truthiness := d.definition.truthiness
  maxIterations := config.maxLoopIterations

/-- The world at the beginning of a run. -/
def world (d : Dialect) (lines : List String) (i : Installation) : World Installation :=
  { context := d.definition.context lines, host := { i with installRoot := d.installRoot } }

/-- A run of a script that is about to start. -/
def session (d : Dialect) (config : Config) (script : Block) (world : World Installation) :
    Session Installation :=
  Session.ofScript (d.setting config) script
    (world.note .debug .dialects s!"starting {d.name} run") d.finisher

end Dialect

end InstallScript
