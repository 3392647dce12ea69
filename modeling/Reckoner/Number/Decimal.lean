/-
Reckoner.Number.Decimal — numbers from decimal text.

A text is an optional sign followed by digits with an optional point (a digit
on at least one side of it) and an optional exponent, or by one of the words
`inf`, `infinity` and `nan` in any case. Nothing else is a number. The value is
the binary64 number nearest to the decimal one, at any length of the text.

  1. Decimal values
  2. The grammar
-/
import Reckoner.Number.Rounding
import Reckoner.Text.Integer

namespace Reckoner.Number

/-! ## 1. Decimal values -/

/-- The number nearest to `mantissa · 10 ^ exponent`. A value of at least
10 ^ 310 is beyond the largest number and one below 10 ^ -330 is below half a
quantum, so neither is written out. -/
def ofDecimal (negative : Bool) (mantissa : Nat) (exponent : Int) : Number :=
  if mantissa = 0 then .finite negative .zero
  else
    let length := (Nat.toDigits 10 mantissa).length
    if 310 < length + exponent then .infinite negative
    else if length + exponent < -330 then .finite negative .zero
    else if 0 ≤ exponent then ofRatio negative (mantissa * 10 ^ exponent.toNat) 1
    else ofRatio negative mantissa (10 ^ exponent.natAbs)

/-! ## 2. The grammar -/

/-- The digits at the head of a list and what follows them. -/
def spanDigits (cs : List Char) : List Char × List Char :=
  (cs.takeWhile Char.isDigit, cs.dropWhile Char.isDigit)

/-- The exponent part of a decimal: nothing, or `e` with a whole number. -/
def exponent? : List Char → Option Int
  | [] => some 0
  | c :: cs => if c = 'e' ∨ c = 'E' then Text.wholeNumber? cs else none

/-- The fraction digits after a point, and what follows them. -/
def spanFraction : List Char → List Char × List Char
  | '.' :: cs => spanDigits cs
  | cs => ([], cs)

/-- The mantissa and the exponent of an unsigned decimal. -/
def unsignedDecimal? (cs : List Char) : Option (Nat × Int) :=
  let (whole, rest) := spanDigits cs
  let (fraction, rest) := spanFraction rest
  if whole.isEmpty && fraction.isEmpty then none
  else (exponent? rest).map fun e =>
    (Nat.ofDigitChars 10 (whole ++ fraction) 0, e - fraction.length)

/-- A number without its sign. -/
def unsigned? (negative : Bool) (cs : List Char) : Option Number :=
  match unsignedDecimal? cs with
  | some (mantissa, exponent) => some (ofDecimal negative mantissa exponent)
  | none =>
    let word := cs.map Char.toLower
    if word = ['i', 'n', 'f'] ∨ word = ['i', 'n', 'f', 'i', 'n', 'i', 't', 'y'] then
      some (.infinite negative)
    else if word = ['n', 'a', 'n'] then some .nan
    else none

/-- The number a list of characters spells. -/
def ofChars? : List Char → Option Number
  | '-' :: cs => unsigned? true cs
  | '+' :: cs => unsigned? false cs
  | cs => unsigned? false cs

/-- The number a text spells. -/
def ofText? (s : String) : Option Number := ofChars? s.toList

end Reckoner.Number
