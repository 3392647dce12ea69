/-
Reckoner.Text.Base64Url — bytes as base64 text with the URL alphabet, unpadded.

Three bytes make four characters; a rest of one or two bytes makes two or
three, whose unused low bits are zero. Reading refuses any other character,
a rest of one character, and unused bits that are not zero, so every list of
bytes has exactly one text.

  1. The alphabet
  2. Writing
  3. Reading
-/
namespace Reckoner.Text.Base64Url

/-! ## 1. The alphabet -/

/-- The character of a value below 64. -/
def charOf (n : Nat) : Char :=
  if n < 26 then Char.ofNat (0x41 + n)
  else if n < 52 then Char.ofNat (0x61 + (n - 26))
  else if n < 62 then Char.ofNat (0x30 + (n - 52))
  else if n = 62 then '-' else '_'

/-- The value of a character of the alphabet. -/
def valueOf? (c : Char) : Option Nat :=
  let n := c.toNat
  if 0x41 ≤ n ∧ n ≤ 0x5a then some (n - 0x41)
  else if 0x61 ≤ n ∧ n ≤ 0x7a then some (n - 0x61 + 26)
  else if 0x30 ≤ n ∧ n ≤ 0x39 then some (n - 0x30 + 52)
  else if c = '-' then some 62
  else if c = '_' then some 63
  else none

theorem valueOf?_charOf : ∀ n < 64, valueOf? (charOf n) = some n := by decide

/-! ## 2. Writing -/

/-- The base64 characters of some bytes. -/
def encodeChars : List UInt8 → List Char
  | [] => []
  | [a] => [charOf (a.toNat / 4), charOf (a.toNat % 4 * 16)]
  | [a, b] =>
    [charOf (a.toNat / 4), charOf (a.toNat % 4 * 16 + b.toNat / 16), charOf (b.toNat % 16 * 4)]
  | a :: b :: c :: rest =>
    charOf (a.toNat / 4) :: charOf (a.toNat % 4 * 16 + b.toNat / 16) ::
      charOf (b.toNat % 16 * 4 + c.toNat / 64) :: charOf (c.toNat % 64) :: encodeChars rest

/-- The base64 text of some bytes. -/
def encode (bytes : List UInt8) : String := String.ofList (encodeChars bytes)

/-! ## 3. Reading -/

/-- The bytes of some values below 64. -/
def bytesOfValues? : List Nat → Option (List UInt8)
  | [] => some []
  | [_] => none
  | [p, q] => if q % 16 = 0 then some [UInt8.ofNat (p * 4 + q / 16)] else none
  | [p, q, r] =>
    if r % 4 = 0 then
      some [UInt8.ofNat (p * 4 + q / 16), UInt8.ofNat (q % 16 * 16 + r / 4)]
    else none
  | p :: q :: r :: s :: rest =>
    (bytesOfValues? rest).map fun bytes =>
      UInt8.ofNat (p * 4 + q / 16) :: UInt8.ofNat (q % 16 * 16 + r / 4) ::
        UInt8.ofNat (r % 4 * 64 + s) :: bytes

/-- The bytes some base64 characters stand for. -/
def decodeChars? (cs : List Char) : Option (List UInt8) :=
  (cs.mapM valueOf?).bind bytesOfValues?

/-- The bytes a base64 text stands for. -/
def decode? (s : String) : Option (List UInt8) := decodeChars? s.toList

end Reckoner.Text.Base64Url
