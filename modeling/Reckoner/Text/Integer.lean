/-
Reckoner.Text.Integer — whole numbers as decimal text.

Reading takes an optional sign and at least one ASCII digit, with any number
of leading zeros, and refuses what does not fit its width. Writing gives the
one text without a plus sign and without leading zeros.

  1. Digit runs
  2. Reading
  3. Writing
  4. Writing, then reading
-/
import Reckoner.Power

namespace Reckoner.Text

/-! ## 1. Digit runs -/

/-- The value of a non-empty run of ASCII digits, with nothing before or after it. -/
def digitRun? (cs : List Char) : Option Nat :=
  if cs.isEmpty || !cs.all Char.isDigit then none
  else some (Nat.ofDigitChars 10 cs 0)

/-- What is read as a digit run are digits, at least one, and their value. -/
theorem digitRun?_eq_some_iff {cs : List Char} {n : Nat} :
    digitRun? cs = some n ↔
      cs ≠ [] ∧ (∀ c ∈ cs, c.isDigit = true) ∧ Nat.ofDigitChars 10 cs 0 = n := by
  rw [digitRun?]
  split
  · next h =>
    refine iff_of_false nofun fun ⟨hne, hdigits, _⟩ => ?_
    rw [List.isEmpty_eq_false_iff.2 hne, List.all_eq_true.2 hdigits] at h
    cases h
  · next h =>
    simp only [Bool.or_eq_true, not_or, List.isEmpty_iff, Bool.not_eq_eq_eq_not, Bool.not_true,
      Bool.not_eq_false, List.all_eq_true] at h
    rw [Option.some.injEq]
    exact ⟨fun hn => ⟨h.1, h.2, hn⟩, fun hn => hn.2.2⟩

/-! ## 2. Reading -/

/-- The number fits a signed 64-bit word. -/
def fitsSigned64 (n : Int) : Bool := decide (-2 ^ 63 ≤ n ∧ n < 2 ^ 63)

/-- A whole number of any size: an optional sign and a digit run. -/
def wholeNumber? : List Char → Option Int
  | '-' :: ds => (digitRun? ds).map fun n => -(n : Int)
  | '+' :: ds => (digitRun? ds).map Int.ofNat
  | ds => (digitRun? ds).map Int.ofNat

/-- A whole number that fits a signed 64-bit word. -/
def signed64Chars? (cs : List Char) : Option Int :=
  (wholeNumber? cs).filter fitsSigned64

/-- A whole number that fits a signed 64-bit word. -/
def signed64? (s : String) : Option Int := signed64Chars? s.toList

/-- A whole number below `limit`, with an optional plus sign and no minus sign. -/
def unsignedBelow? (limit : Nat) (s : String) : Option Nat :=
  let digits := match s.toList with
    | '+' :: ds => ds
    | ds => ds
  (digitRun? digits).filter fun n => decide (n < limit)

/-! ## 3. Writing -/

/-- The decimal digits of a natural number, without leading zeros. -/
def naturalChars (n : Nat) : List Char := Nat.toDigits 10 n

/-- The decimal text of a whole number. -/
def integerChars : Int → List Char
  | .ofNat n => naturalChars n
  | .negSucc n => '-' :: naturalChars (n + 1)

/-- The decimal text of a whole number. -/
def integer (n : Int) : String := String.ofList (integerChars n)

/-- The decimal text of a natural number. -/
def natural (n : Nat) : String := String.ofList (naturalChars n)

/-! ## 4. Writing, then reading -/

theorem isDigit_of_mem_naturalChars {n : Nat} {c : Char} (h : c ∈ naturalChars n) :
    c.isDigit = true :=
  Nat.isDigit_of_mem_toDigits (by decide) (by decide) h

theorem naturalChars_ne_nil (n : Nat) : naturalChars n ≠ [] := Nat.toDigits_ne_nil

theorem naturalChars_head (n : Nat) : ∃ c cs, naturalChars n = c :: cs ∧ c.isDigit = true := by
  obtain ⟨c, cs, h⟩ := List.exists_cons_of_ne_nil (naturalChars_ne_nil n)
  have hmem : c ∈ naturalChars n := by
    rw [h]
    exact List.mem_cons_self
  exact ⟨c, cs, h, isDigit_of_mem_naturalChars hmem⟩

/-- One digit more is written behind the others. -/
theorem naturalChars_ten_mul_add {n d : Nat} (hn : 0 < n) (hd : d < 10) :
    naturalChars (10 * n + d) = naturalChars n ++ [Nat.digitChar d] := by
  have happend := Nat.toDigits_append_toDigits (b := 10) (by decide) hn hd
  rw [Nat.toDigits_of_lt_base hd] at happend
  exact happend.symm

theorem digitRun?_naturalChars (n : Nat) : digitRun? (naturalChars n) = some n := by
  refine digitRun?_eq_some_iff.2 ⟨naturalChars_ne_nil n, fun c hc => ?_, ?_⟩
  · exact isDigit_of_mem_naturalChars hc
  · exact Nat.ofDigitChars_ten_toDigits

/-- A digit run is a whole number without a sign. -/
theorem wholeNumber?_of_digitRun? {cs : List Char} {n : Nat} (h : digitRun? cs = some n) :
    wholeNumber? cs = some (n : Int) := by
  obtain ⟨-, hdigits, -⟩ := digitRun?_eq_some_iff.1 h
  unfold wholeNumber?
  split
  · exact absurd (hdigits _ List.mem_cons_self) (by decide)
  · exact absurd (hdigits _ List.mem_cons_self) (by decide)
  · rw [h]
    rfl

theorem wholeNumber?_naturalChars (n : Nat) : wholeNumber? (naturalChars n) = some (n : Int) :=
  wholeNumber?_of_digitRun? (digitRun?_naturalChars n)

/-- Every whole number is read back from its text. -/
theorem wholeNumber?_integerChars (n : Int) : wholeNumber? (integerChars n) = some n := by
  cases n with
  | ofNat n => exact wholeNumber?_naturalChars n
  | negSucc n =>
    have h := digitRun?_naturalChars (n + 1)
    simp only [integerChars, wholeNumber?, h]
    rfl

theorem toList_integer (n : Int) : (integer n).toList = integerChars n := String.toList_ofList

theorem signed64?_integer {n : Int} (h : fitsSigned64 n = true) :
    signed64? (integer n) = some n := by
  rw [signed64?, toList_integer, signed64Chars?, wholeNumber?_integerChars, Option.filter_some,
    if_pos h]

end Reckoner.Text
