/-
Reckoner.Number.Fixed — numbers as text with six decimal places.

The text shows the exact value rounded to six places, a tie going to the even
last digit. Zero keeps its sign, and so does a value that rounds to zero.
-/
import Reckoner.Number.Rounding
import Reckoner.Text.Integer

namespace Reckoner.Number

/-- The value in millionths, rounded to the nearest and ties to even. -/
def millionths (m : Magnitude) : Nat := divNearest (m.quanta * 10 ^ 6) (2 ^ 1074)

/-- A count of millionths with a point before its last six digits. -/
def sixPlacesOfMillionths (n : Nat) : List Char :=
  Text.naturalChars (n / 10 ^ 6) ++
    '.' :: (Text.naturalChars (n % 10 ^ 6)).leftpad 6 '0'

/-- The characters of the text with six decimal places. -/
def sixPlacesChars : Number → List Char
  | .nan => ['N', 'a', 'N']
  | .infinite true => ['-', 'i', 'n', 'f']
  | .infinite false => ['i', 'n', 'f']
  | .finite true m => '-' :: sixPlacesOfMillionths (millionths m)
  | .finite false m => sixPlacesOfMillionths (millionths m)

/-- The text with six decimal places. -/
def sixPlaces (x : Number) : String := String.ofList (sixPlacesChars x)

end Reckoner.Number
