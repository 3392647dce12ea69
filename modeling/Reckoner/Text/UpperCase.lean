/-
Reckoner.Text.UpperCase — the upper case of a text.

The mapping is the full one of Unicode, without the conditions that depend on
a language: a character may become several, as `ß` becomes `SS`.
-/
import Reckoner.Text.UpperCase.Table

namespace Reckoner.Text

namespace UpperCase

/-- The run moves the code point. -/
def Run.covers (r : Run) (n : Nat) : Bool :=
  r.first ≤ n && n ≤ r.last && (n - r.first) % r.step == 0

/-- The upper case of one character. -/
def ofChar (c : Char) : List Char :=
  match expansions.lookup c.toNat with
  | some ns => ns.map Char.ofNat
  | none =>
    match runs.find? (·.covers c.toNat) with
    | some r => [Char.ofNat (c.toNat + r.shift).toNat]
    | none => [c]

end UpperCase

/-- The upper case of a text. -/
def upperCase (s : String) : String := String.ofList (s.toList.flatMap UpperCase.ofChar)

end Reckoner.Text
