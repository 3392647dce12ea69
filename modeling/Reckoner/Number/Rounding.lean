/-
Reckoner.Number.Rounding — the one place where a number is rounded.

A quotient of two whole numbers is rounded to the nearest binary64 number, a
tie going to the neighbour whose last bit is zero. Arithmetic, decimal texts
and conversions of whole numbers all come through `Number.ofRatio`, so each of
them is correctly rounded by construction.

  1. Quotients to the nearest whole number
  2. Quotients to the nearest magnitude
-/
import Reckoner.Number.Basic

namespace Reckoner

/-! ## 1. Quotients to the nearest whole number -/

/-- The whole number nearest to `num / den`; of two equally near ones the even. -/
def divNearest (num den : Nat) : Nat :=
  let q := num / den
  let r := num % den
  if 2 * r < den then q
  else if den < 2 * r then q + 1
  else q + q % 2

theorem divNearest_mul (n : Nat) {den : Nat} (h : 0 < den) : divNearest (n * den) den = n := by
  unfold divNearest
  simp [Nat.mul_div_cancel n h, h]

@[simp] theorem divNearest_one (n : Nat) : divNearest n 1 = n := by
  simpa using divNearest_mul n Nat.one_pos

theorem le_divNearest (num den : Nat) : num / den ≤ divNearest num den := by
  unfold divNearest
  simp only
  split
  · exact Nat.le_refl _
  · split
    · exact Nat.le_succ _
    · exact Nat.le_add_right _ _

theorem divNearest_le (num den : Nat) : divNearest num den ≤ num / den + 1 := by
  unfold divNearest
  simp only
  split
  · exact Nat.le_succ _
  · split
    · exact Nat.le_refl _
    · exact Nat.add_le_add_left (by omega) _

/-! ## 2. Quotients to the nearest magnitude -/

namespace Magnitude

/-- The magnitude nearest to `num / den` quanta, if there is one: beyond the
largest magnitude there is none. The scale is the least at which 53 bits hold
the quotient; rounding up from a full mantissa moves to the next scale. -/
def nearest? (num den : Nat) : Option Magnitude :=
  let scale := Nat.log2 (num / den) - 52
  let mantissa := divNearest num (den * 2 ^ scale)
  if mantissa = 2 ^ 53 then ofCanonical? (2 ^ 52) (scale + 1)
  else ofCanonical? mantissa scale

end Magnitude

namespace Number

/-- The number nearest to `num / den` quanta, with the given sign. -/
def ofQuanta (negative : Bool) (num den : Nat) : Number :=
  match Magnitude.nearest? num den with
  | some m => .finite negative m
  | none => .infinite negative

/-- The number nearest to `num / den`, with the given sign. -/
def ofRatio (negative : Bool) (num den : Nat) : Number :=
  ofQuanta negative (num * 2 ^ 1074) den

/-- The number nearest to a whole number. -/
def ofInt (n : Int) : Number := ofRatio (decide (n < 0)) n.natAbs 1

end Number

end Reckoner
