/-
Reckoner.Timings — how long each operation is made to take.
-/
import Reckoner.Formula.Operator

namespace Reckoner

/-- The milliseconds a worker spends on an operation before it computes it. -/
structure Timings where
  additionMs : Nat := 1000
  subtractionMs : Nat := 1000
  multiplicationMs : Nat := 1000
  divisionMs : Nat := 1000
deriving DecidableEq

namespace Timings

/-- The same time for every operation. -/
def uniform (ms : Nat) : Timings := ⟨ms, ms, ms, ms⟩

/-- The time of an operator. -/
def cost (t : Timings) : Operator → Nat
  | .add => t.additionMs
  | .subtract => t.subtractionMs
  | .multiply => t.multiplicationMs
  | .divide => t.divisionMs

end Timings

end Reckoner
