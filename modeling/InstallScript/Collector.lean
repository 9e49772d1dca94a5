import InstallScript.Diagnostic

/-!
Collecting diagnostics up to a number of errors.
-/

namespace InstallScript

/-- Diagnostics in the order of their arrival, and the number of errors after which to stop. -/
structure Collector where
  diagnostics : Array Diagnostic := #[]
  maxErrors : Int := 20

namespace Collector

/-- Takes in a diagnostic. -/
def add (c : Collector) (d : Diagnostic) : Collector :=
  { c with diagnostics := c.diagnostics.push d }

/-- The number of diagnostics of a severity. -/
def count (c : Collector) (severity : Severity) : Nat :=
  c.diagnostics.toList.countP fun d => d.severity = severity

/-- The number of errors. -/
def errorCount (c : Collector) : Nat := c.count .error

/-- The number of warnings. -/
def warningCount (c : Collector) : Nat := c.count .warning

/-- Whether there is an error. -/
def hasErrors (c : Collector) : Bool := 0 < c.errorCount

/-- Whether there is a warning. -/
def hasWarnings (c : Collector) : Bool := 0 < c.warningCount

/-- Whether the limit is reached. -/
def shouldStop (c : Collector) : Bool := c.maxErrors ≤ c.errorCount

end Collector

end InstallScript
