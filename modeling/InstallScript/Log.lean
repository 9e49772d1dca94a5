/-!
Log records: notes about the course of a run for whoever maintains an installation.
-/

namespace InstallScript

/-- How much a record matters. -/
inductive LogLevel
  | debug
  | info
  | warning
  | error
  | critical
  deriving DecidableEq, Repr

namespace LogLevel

/-- All levels, from the least one. -/
def all : List LogLevel := [debug, info, warning, error, critical]

/-- The name of a level. -/
def name : LogLevel → String
  | debug => "DEBUG"
  | info => "INFO"
  | warning => "WARNING"
  | error => "ERROR"
  | critical => "CRITICAL"

/-- The place of a level on the customary scale. -/
def rank : LogLevel → Nat
  | debug => 10
  | info => 20
  | warning => 30
  | error => 40
  | critical => 50

/-- The level with a given name. -/
def ofName? (name : String) : Option LogLevel :=
  all.find? fun level => level.name = name

end LogLevel

/-- The part of the library that a record comes from. -/
inductive Logger
  | dialects
  | calls
  | runs
  | files
  | settings
  deriving DecidableEq, Repr

/-- The name of a part in records. -/
def Logger.name : Logger → String
  | dialects => "modscript.dialects"
  | calls => "modscript.runtime.proxy"
  | runs => "modscript.runtime.interpreter"
  | files => "modscript.dialects.filesystem"
  | settings => "modscript.dialects.stateofdecay"

/-- A record. -/
structure LogRecord where
  level : LogLevel
  logger : Logger
  message : String
  deriving DecidableEq, Repr

/-- A record as it is written. -/
def LogRecord.text (r : LogRecord) : String :=
  s!"{r.level.name} {r.logger.name}: {r.message}"

end InstallScript
