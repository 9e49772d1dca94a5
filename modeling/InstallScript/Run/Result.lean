import InstallScript.Diagnostic

/-!
Results of runs.
-/

namespace InstallScript

/-- How a run has ended. -/
inductive RunStatus
  | success
  | failed
  | aborted
  deriving DecidableEq, Repr

/-- The name of a status. -/
def RunStatus.name : RunStatus → String
  | success => "success"
  | failed => "failed"
  | aborted => "aborted"

/-- The result of a run. -/
structure RunResult where
  status : RunStatus
  warnings : List Diagnostic := []
  error : Option Diagnostic := none
  abortReason : Option String := none
  deriving DecidableEq, Repr

/-- A result in one line. -/
def RunResult.summary (r : RunResult) : String :=
  let cause := match r.error, r.abortReason with
    | some e, _ => s!" [{e.code}] {e.message}"
    | none, some reason => if reason = "" then "" else s!" ({reason})"
    | none, none => ""
  let warned := if r.warnings.isEmpty then "" else s!", {r.warnings.length} warning(s)"
  r.status.name ++ cause ++ warned

end InstallScript
