/-
Reckoner.Json.Writer — from tree to text.

No blanks are written. Strings escape the quote, the backslash and the control
characters, and nothing else. Numbers have the fewest digits that read back.

  1. Strings
  2. Numbers
  3. Values
-/
import Reckoner.Json.Basic
import Reckoner.Number.Shortest

namespace Reckoner.Json

/-! ## 1. Strings -/

/-- A character as it stands inside a string. -/
def escapeChar (c : Char) : List Char :=
  if c = '"' then ['\\', '"']
  else if c = '\\' then ['\\', '\\']
  else if c = '\x08' then ['\\', 'b']
  else if c = '\t' then ['\\', 't']
  else if c = '\n' then ['\\', 'n']
  else if c = '\x0c' then ['\\', 'f']
  else if c = '\r' then ['\\', 'r']
  else if c < ' ' then
    ['\\', 'u', '0', '0', Nat.digitChar (c.toNat / 16), Nat.digitChar (c.toNat % 16)]
  else [c]

/-- A string with its quotes. -/
def stringChars (s : String) : List Char := '"' :: (s.toList.flatMap escapeChar ++ ['"'])

/-! ## 2. Numbers -/

/-- How a decimal is laid out: where its point may stand without an exponent. -/
structure Layout where
  /-- The point may stand this many places before the first digit. -/
  leastPoint : Int
  /-- The point may stand this many places after the first digit. -/
  greatestPoint : Int

/-- Four zeros may follow the point, and sixteen digits may precede it. -/
def layout : Layout := ⟨-4, 16⟩

/-- The digits of a decimal without trailing zeros. -/
def significantDigits (mantissa : Nat) : List Char :=
  ((Text.naturalChars mantissa).reverse.dropWhile (· == '0')).reverse

/-- A whole number with its sign, also where it is positive. -/
def signedChars (n : Int) : List Char :=
  if 0 ≤ n then '+' :: Text.integerChars n else Text.integerChars n

/-- A positive decimal, positional where the layout allows it and otherwise
with an exponent. -/
def decimalChars (d : Number.Decimal) : List Char :=
  let digits := significantDigits d.mantissa
  let point : Int := (Text.naturalChars d.mantissa).length + d.exponent
  if layout.leastPoint ≤ point ∧ point ≤ layout.greatestPoint then
    if point ≤ 0 then '0' :: '.' :: (List.replicate point.natAbs '0' ++ digits)
    else if digits.length ≤ point.toNat then
      digits ++ List.replicate (point.toNat - digits.length) '0' ++ ['.', '0']
    else digits.take point.toNat ++ '.' :: digits.drop point.toNat
  else
    let exponent := 'e' :: signedChars (point - 1)
    match digits with
    | [] => '0' :: exponent
    | [c] => c :: exponent
    | c :: cs => c :: '.' :: (cs ++ exponent)

/-- A magnitude as a decimal with the fewest digits that read back. -/
def magnitudeChars (m : Magnitude) : List Char :=
  if m.mantissa = 0 then ['0', '.', '0'] else decimalChars (Number.shortestDecimal m)

/-- A number; what is not finite is written as `null`. -/
def numberChars : Number → List Char
  | .finite true m => '-' :: magnitudeChars m
  | .finite false m => magnitudeChars m
  | _ => ['n', 'u', 'l', 'l']

/-! ## 3. Values -/

mutual

/-- A value as characters. What cannot be used is written in some form that
reads as the same; a broken place is written as nothing. -/
def chars : Json → List Char
  | .null => ['n', 'u', 'l', 'l']
  | .bool true => ['t', 'r', 'u', 'e']
  | .bool false => ['f', 'a', 'l', 's', 'e']
  | .integer n => Text.integerChars n
  | .number x => numberChars x
  | .text s => stringChars s
  | .unusable true => ['1', 'e', '9', '9', '9']
  | .unusable false => ['"', '\\', 'u', 'd', 'c', '0', '0', '"']
  | .array items => '[' :: items.chars true
  | .object members => '\x7b' :: members.chars true
  | .broken => []

/-- The items of an array and its end. -/
def Items.chars (first : Bool) : Items → List Char
  | .closed => [']']
  | .broken => []
  | .cons j js => (if first then [] else [',']) ++ (j.chars ++ js.chars false)

/-- The members of an object and its end. -/
def Members.chars (first : Bool) : Members → List Char
  | .closed => ['\x7d']
  | .broken => []
  | .cons name j ms =>
    let name := match name with
      | some s => stringChars s
      | none => ['"', '\\', 'u', 'd', '8', '0', '0', '"']
    (if first then [] else [',']) ++ (name ++ ':' :: (j.chars ++ ms.chars false))

end

/-- A value as text. -/
def render (j : Json) : String := String.ofList j.chars

end Reckoner.Json
