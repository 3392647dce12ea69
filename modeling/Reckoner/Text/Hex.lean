/-
Reckoner.Text.Hex — bytes as hexadecimal text.

Writing gives two lower-case digits a byte. Reading takes digits of either
case, two to a byte, and names the first character that is no digit; a text of
odd length is refused before its characters are looked at. Positions and
lengths count bytes.

  1. Writing
  2. Reading
  3. What is wrong with a text
-/
import Reckoner.Text.Integer
import Reckoner.Text.Utf8

namespace Reckoner.Text.Hex

/-! ## 1. Writing -/

/-- The two digits of a byte. -/
def byteChars (b : UInt8) : List Char :=
  [Nat.digitChar (b.toNat / 16), Nat.digitChar (b.toNat % 16)]

/-- The hexadecimal text of some bytes. -/
def encode (bytes : List UInt8) : String := String.ofList (bytes.flatMap byteChars)

/-! ## 2. Reading -/

/-- Why a text is not hexadecimal. -/
inductive Fault where
  | oddLength
  | invalidByte (byte : UInt8) (position : Nat)
deriving DecidableEq

/-- The value of a hexadecimal digit, given as an ASCII byte. -/
def digit? (b : UInt8) : Option Nat :=
  let n := b.toNat
  if 0x30 ≤ n ∧ n ≤ 0x39 then some (n - 0x30)
  else if 0x61 ≤ n ∧ n ≤ 0x66 then some (n - 0x61 + 10)
  else if 0x41 ≤ n ∧ n ≤ 0x46 then some (n - 0x41 + 10)
  else none

/-- Pairs of digits as bytes; `position` is where the first pair stands. -/
def decodePairs (position : Nat) : List UInt8 → Except Fault (List UInt8)
  | [] => .ok []
  | [_] => .error .oddLength
  | high :: low :: rest =>
    match digit? high, digit? low with
    | some h, some l => (decodePairs (position + 2) rest).map (UInt8.ofNat (16 * h + l) :: ·)
    | none, _ => .error (.invalidByte high position)
    | _, none => .error (.invalidByte low (position + 1))

/-- The bytes a hexadecimal text stands for. -/
def decode (s : String) : Except Fault (List UInt8) :=
  let bytes := utf8 s
  if bytes.length % 2 = 1 then .error .oddLength else decodePairs 0 bytes

/-! ## 3. What is wrong with a text -/

/-- A byte shown as a quoted character, with the usual escapes for those that
do not print. -/
def quotedByte (b : UInt8) : String :=
  let n := b.toNat
  let shown :=
    if n = 0 then "\\0"
    else if n = 9 then "\\t"
    else if n = 10 then "\\n"
    else if n = 13 then "\\r"
    else if n = 39 then "\\'"
    else if n = 92 then "\\\\"
    else if n < 32 ∨ (127 ≤ n ∧ n ≤ 160) ∨ n = 173 then
      "\\u\x7b" ++ String.ofList (Nat.toDigits 16 n) ++ "\x7d"
    else String.ofList [Char.ofNat n]
  "'" ++ shown ++ "'"

/-- The fault in words. -/
def Fault.message : Fault → String
  | .oddLength => "Odd number of digits"
  | .invalidByte b position =>
    "Invalid character " ++ quotedByte b ++ " at position " ++ natural position

end Reckoner.Text.Hex
