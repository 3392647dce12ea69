/-
Reckoner.Proofs.Service.Path — the path of an expression leads to its id.

An id may be written in many ways in a path: with percent signs, with a plus sign,
with leading zeros (`AsksFor`). One way that every id has is its decimal text
(`expressionPath`).

  1. Decimal texts in a path
  2. Requests for an expression
-/
import Mathlib.Data.List.TakeWhile
import Reckoner.Proofs.Service.Reaches

namespace Reckoner

/-! ## 1. Decimal texts in a path -/

namespace Text

end Text

namespace Service

end Service

end Reckoner
