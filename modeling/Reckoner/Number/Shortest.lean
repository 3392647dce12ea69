/-
Reckoner.Number.Shortest — the shortest decimal that reads back.

For a count of significant digits, the decimals with that many digits form a
grid, and only the two neighbours of the value on it can read back as the
value. The first count whose grid has one wins, the nearer neighbour being
tried first; seventeen digits are always enough, and the exact expansion
stands behind the search.
-/
import Reckoner.Number.Decimal

namespace Reckoner.Number

/-- A positive decimal value, `mantissa · 10 ^ exponent`. -/
structure Decimal where
  mantissa : Nat
  exponent : Int
deriving DecidableEq

/-- The decimal reads as the given magnitude. -/
def Decimal.readsAs (d : Decimal) (m : Magnitude) : Bool :=
  ofDecimal false d.mantissa d.exponent == .finite false m

/-- How many digits the magnitude has before its decimal point; for a value
below one tenth this is minus the number of zeros that follow the point. -/
def pointOf (m : Magnitude) : Int :=
  ((Nat.toDigits 10 (m.quanta * 10 ^ 400 / 2 ^ 1074)).length : Int) - 400

/-- The neighbours of the magnitude among the multiples of `10 ^ unit`, the
nearer one first. -/
def neighbours (m : Magnitude) (unit : Int) : List Decimal :=
  let num := m.quanta * 10 ^ (-unit).toNat
  let den := 2 ^ 1074 * 10 ^ unit.toNat
  let below := num / den
  let near := divNearest num den
  let far := if near = below then below + 1 else below
  [⟨near, unit⟩, ⟨far, unit⟩]

/-- The exact decimal expansion of a magnitude. -/
def exactDecimal (m : Magnitude) : Decimal := ⟨m.quanta * 5 ^ 1074, -1074⟩

/-- The decimal with the fewest significant digits that reads as the magnitude. -/
def shortestDecimal (m : Magnitude) : Decimal :=
  let point := pointOf m
  let found := (List.range 17).findSome? fun k =>
    (neighbours m (point - (k + 1 : Nat))).find? (·.readsAs m)
  found.getD (exactDecimal m)

end Reckoner.Number
