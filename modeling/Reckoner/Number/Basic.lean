/-
Reckoner.Number.Basic — binary64 numbers as exact values.

Every finite binary64 number is a whole multiple of one quantum, 2 to the
power -1074. A magnitude is kept as `mantissa · 2 ^ scale` quanta in the one
canonical form the format has for it, so two finite numbers are equal exactly
when their sign and their fields are. All values that are not numbers are one
value, `nan`: nothing this library does can tell them apart.

  1. Magnitudes
  2. Numbers and their classes
  3. The bit patterns
-/
import Reckoner.Power

namespace Reckoner

/-! ## 1. Magnitudes -/

/-- The size of a finite number in quanta, `mantissa · 2 ^ scale`. Below the
first binade the scale is zero; above it the mantissa has all its 53 bits. -/
structure Magnitude where
  mantissa : Nat
  scale : Nat
  canonical : mantissa < 2 ^ 53 ∧ scale ≤ 2045 ∧ (scale = 0 ∨ 2 ^ 52 ≤ mantissa)
deriving DecidableEq

namespace Magnitude

/-- The magnitude of zero. -/
def zero : Magnitude := ⟨0, 0, by decide⟩

/-- How many quanta the magnitude measures. -/
def quanta (m : Magnitude) : Nat := m.mantissa * 2 ^ m.scale

/-- A mantissa and a scale that are in canonical form make a magnitude. -/
def ofCanonical? (mantissa scale : Nat) : Option Magnitude :=
  if h : mantissa < 2 ^ 53 ∧ scale ≤ 2045 ∧ (scale = 0 ∨ 2 ^ 52 ≤ mantissa) then
    some ⟨mantissa, scale, h⟩
  else none

theorem ofCanonical?_self (m : Magnitude) : ofCanonical? m.mantissa m.scale = some m := by
  unfold ofCanonical?
  rw [dif_pos m.canonical]

@[simp] theorem quanta_zero : zero.quanta = 0 := rfl

theorem quanta_eq_zero_iff {m : Magnitude} : m.quanta = 0 ↔ m = zero := by
  obtain ⟨a, s, h⟩ := m
  constructor
  · intro h0
    have ha : a = 0 := by
      rcases Nat.mul_eq_zero.1 h0 with h1 | h1
      · exact h1
      · exact absurd h1 (Nat.ne_of_gt (Nat.two_pow_pos s))
    subst ha
    rcases h with ⟨_, _, h2 | h2⟩
    · subst h2; rfl
    · exact absurd h2 (by decide)
  · intro h0
    rw [h0]
    rfl

end Magnitude

/-! ## 2. Numbers and their classes -/

/-- A binary64 number. -/
inductive Number where
  | nan
  | infinite (negative : Bool)
  | finite (negative : Bool) (magnitude : Magnitude)
deriving DecidableEq

namespace Number

/-- Positive zero. -/
def zero : Number := .finite false .zero

instance : Inhabited Number := ⟨zero⟩

/-- The number is neither infinite nor `nan`. -/
def isFinite : Number → Bool
  | .finite _ _ => true
  | _ => false

/-- The number is a zero of either sign. -/
def isZero : Number → Bool
  | .finite _ m => m.mantissa == 0
  | _ => false

/-- The number with the other sign. -/
def negate : Number → Number
  | .nan => .nan
  | .infinite n => .infinite !n
  | .finite n m => .finite (!n) m

@[simp] theorem negate_negate (x : Number) : x.negate.negate = x := by
  cases x <;> simp [negate]

/-! ## 3. The bit patterns -/

/-- The number a 64-bit pattern stands for: a sign bit, eleven bits of
exponent and 52 bits of mantissa. -/
def ofBits (bits : Nat) : Number :=
  let negative := bits / 2 ^ 63 % 2 == 1
  let exponent := bits / 2 ^ 52 % 2 ^ 11
  let fraction := bits % 2 ^ 52
  if exponent = 2047 then
    if fraction = 0 then .infinite negative else .nan
  else
    let parts := if exponent = 0 then (fraction, 0) else (2 ^ 52 + fraction, exponent - 1)
    match Magnitude.ofCanonical? parts.1 parts.2 with
    | some m => .finite negative m
    | none => .nan

/-- The 64-bit pattern of a number; `nan` has the quiet pattern without a sign. -/
def toBits : Number → Nat
  | .nan => 2047 * 2 ^ 52 + 2 ^ 51
  | .infinite n => n.toNat * 2 ^ 63 + 2047 * 2 ^ 52
  | .finite n m =>
    n.toNat * 2 ^ 63 +
      (if m.mantissa < 2 ^ 52 then m.mantissa
       else (m.scale + 1) * 2 ^ 52 + (m.mantissa - 2 ^ 52))

end Number

end Reckoner
