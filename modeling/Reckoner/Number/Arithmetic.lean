/-
Reckoner.Number.Arithmetic — the four operations on binary64 numbers.

Each operation computes the exact result in quanta and rounds it once. What
has no value (the difference of two equal infinities, zero times infinity, a
quotient of zeros or of infinities) is `nan`.
-/
import Reckoner.Number.Rounding

namespace Reckoner.Number

/-- The exact signed count of quanta of a finite number. -/
def signedQuanta (negative : Bool) (m : Magnitude) : Int :=
  if negative then -(m.quanta : Int) else m.quanta

/-- The sum. A sum that is zero is negative only if both terms are. -/
def add : Number → Number → Number
  | .nan, _ => .nan
  | _, .nan => .nan
  | .infinite a, .infinite b => if a = b then .infinite a else .nan
  | .infinite a, .finite _ _ => .infinite a
  | .finite _ _, .infinite b => .infinite b
  | .finite a m, .finite b n =>
    let total := signedQuanta a m + signedQuanta b n
    let negative := if total = 0 then a && b else decide (total < 0)
    ofQuanta negative total.natAbs 1

/-- The difference. -/
def sub (x y : Number) : Number := add x y.negate

/-- The product. -/
def mul : Number → Number → Number
  | .nan, _ => .nan
  | _, .nan => .nan
  | .infinite a, .infinite b => .infinite (a != b)
  | .infinite a, .finite b n => if n.mantissa = 0 then .nan else .infinite (a != b)
  | .finite a m, .infinite b => if m.mantissa = 0 then .nan else .infinite (a != b)
  | .finite a m, .finite b n => ofQuanta (a != b) (m.quanta * n.quanta) (2 ^ 1074)

/-- The quotient. -/
def div : Number → Number → Number
  | .nan, _ => .nan
  | _, .nan => .nan
  | .infinite _, .infinite _ => .nan
  | .infinite a, .finite b _ => .infinite (a != b)
  | .finite a _, .infinite b => .finite (a != b) .zero
  | .finite a m, .finite b n =>
    if n.mantissa = 0 then
      if m.mantissa = 0 then .nan else .infinite (a != b)
    else ofRatio (a != b) m.quanta n.quanta

end Reckoner.Number
