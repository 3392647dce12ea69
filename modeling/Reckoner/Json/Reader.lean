/-
Reckoner.Json.Reader — from text to tree.

Scanners are recursions on a list of symbols, which are characters or, inside a
string, bytes that are part of none. The three that call one another carry
fuel, and `readSymbols` gives them twice the length of the text, which no
nesting can use up: each level consumes a symbol.

  1. Blanks and literals
  2. Strings
  3. Numbers
  4. Values
  5. Whole texts
-/
import Reckoner.Json.Basic
import Reckoner.Number.Decimal
import Reckoner.Text.Utf8

namespace Reckoner.Json

open Text (Symbol)

/-! ## 1. Blanks and literals -/

/-- The four characters that may stand between tokens. -/
def isSpace : Symbol → Bool
  | some c => c == ' ' || c == '\n' || c == '\t' || c == '\r'
  | none => false

/-- A value if its literal stands at the head of the text. -/
def readLiteral (value : Json) (literal : List Char) (cs : List Symbol) :
    Json × Option (List Symbol) :=
  match (literal.map some).isPrefixOf? cs with
  | some rest => (value, some rest)
  | none => (.broken, none)

/-! ## 2. Strings -/

/-- A part of a string: a character that stands for itself or behind a short
escape, a byte that is part of no character, or a 16-bit unit written as a long
escape. -/
inductive Piece where
  | char (c : Char)
  | byte
  | unit (n : Nat)

/-- The value of a hexadecimal digit. -/
def hexDigit? (c : Char) : Option Nat :=
  if '0' ≤ c ∧ c ≤ '9' then some (c.toNat - 0x30)
  else if 'a' ≤ c ∧ c ≤ 'f' then some (c.toNat - 0x61 + 10)
  else if 'A' ≤ c ∧ c ≤ 'F' then some (c.toNat - 0x41 + 10)
  else none

/-- The value of four hexadecimal digits. -/
def hexUnit? (a b c d : Char) : Option Nat := do
  let a ← hexDigit? a
  let b ← hexDigit? b
  let c ← hexDigit? c
  let d ← hexDigit? d
  pure (((a * 16 + b) * 16 + c) * 16 + d)

/-- The character a short escape stands for. -/
def shortEscape? : Char → Option Char
  | '"' => some '"'
  | '\\' => some '\\'
  | '/' => some '/'
  | 'b' => some '\x08'
  | 'f' => some '\x0c'
  | 'n' => some '\n'
  | 'r' => some '\r'
  | 't' => some '\t'
  | _ => none

/-- One more piece in front of those that follow. -/
def prepend (p : Piece) : Option (List Piece × List Symbol) → Option (List Piece × List Symbol)
  | some (ps, rest) => some (p :: ps, rest)
  | none => none

/-- The pieces of a string up to its closing quote, and what follows it. -/
def scanString : List Symbol → Option (List Piece × List Symbol)
  | [] => none
  | some '"' :: rest => some ([], rest)
  | some '\\' :: some 'u' :: some a :: some b :: some c :: some d :: rest =>
    match hexUnit? a b c d with
    | some n => prepend (.unit n) (scanString rest)
    | none => none
  | some '\\' :: some e :: rest =>
    match shortEscape? e with
    | some c => prepend (.char c) (scanString rest)
    | none => none
  | some '\\' :: _ => none
  | some c :: rest => if c < ' ' then none else prepend (.char c) (scanString rest)
  | none :: rest => prepend .byte (scanString rest)

/-- The characters of some pieces; two units that make a surrogate pair are one
character. A unit that lacks its partner is an error where it stands, and the
closing quote is still taken for the partner of the last one. A byte that is
part of no character is an error at the end. -/
def joinPieces : List Piece → Except Bool (List Char)
  | [] => .ok []
  | .char c :: ps => (joinPieces ps).map (c :: ·)
  | .byte :: ps =>
    match joinPieces ps with
    | .ok _ => .error true
    | .error whole => .error whole
  | .unit n :: .unit m :: ps =>
    if 0xd800 ≤ n ∧ n < 0xdc00 then
      if 0xdc00 ≤ m ∧ m < 0xe000 then
        (joinPieces ps).map (Char.ofNat (0x10000 + (n - 0xd800) * 0x400 + (m - 0xdc00)) :: ·)
      else .error false
    else if 0xdc00 ≤ n ∧ n < 0xe000 then .error false
    else (joinPieces (.unit m :: ps)).map (Char.ofNat n :: ·)
  | .unit n :: ps =>
    if 0xd800 ≤ n ∧ n < 0xdc00 then .error ps.isEmpty
    else if 0xdc00 ≤ n ∧ n < 0xe000 then .error false
    else (joinPieces ps).map (Char.ofNat n :: ·)

/-- A string whose opening quote has been read. -/
def readString (cs : List Symbol) : Json × Option (List Symbol) :=
  match scanString cs with
  | none => (.broken, none)
  | some (pieces, rest) =>
    match joinPieces pieces with
    | .ok s => (.text (String.ofList s), some rest)
    | .error whole => (.unusable whole, some rest)

/-! ## 3. Numbers -/

/-- The digits at the head of the text and what follows them. -/
def spanDigits : List Symbol → List Char × List Symbol
  | some c :: cs =>
    if c.isDigit then
      let (digits, rest) := spanDigits cs
      (c :: digits, rest)
    else ([], some c :: cs)
  | cs => ([], cs)

/-- The digits before the point: a lone zero, or digits that do not begin with
one. -/
def readWhole? (cs : List Symbol) : Option (List Char × List Symbol) :=
  match spanDigits cs with
  | ([], _) => none
  | ('0' :: _ :: _, _) => none
  | parts => some parts

/-- The fraction: nothing, or a point and at least one digit. -/
def readFraction? : List Symbol → Option (List Char × List Symbol)
  | some '.' :: cs =>
    match spanDigits cs with
    | ([], _) => none
    | parts => some parts
  | cs => some ([], cs)

/-- A signed run of digits, as an exponent has it. -/
def readSignedDigits? (cs : List Symbol) : Option (Int × List Symbol) :=
  let (negative, cs) := match cs with
    | some '-' :: r => (true, r)
    | some '+' :: r => (false, r)
    | r => (false, r)
  match spanDigits cs with
  | ([], _) => none
  | (digits, rest) =>
    let n : Int := Nat.ofDigitChars 10 digits 0
    some (if negative then -n else n, rest)

/-- The exponent, if there is one: `e`, a sign and digits. -/
def readExponent? : List Symbol → Option (Option Int × List Symbol)
  | some c :: cs =>
    if c = 'e' ∨ c = 'E' then (readSignedDigits? cs).map fun (n, rest) => (some n, rest)
    else some (none, some c :: cs)
  | cs => some (none, cs)

/-- A number as a tree: an integer if it is written as one and fits. A negative
zero is no integer. A number that is too large is found out at the digit with
which its exponent outgrows 32 bits, and otherwise at its end. -/
def numberTree (negative : Bool) (whole fraction : List Char) (exponent : Option Int) : Json :=
  let mantissa := Nat.ofDigitChars 10 (whole ++ fraction) 0
  let power := exponent.getD 0
  let approximate :=
    match Number.ofDecimal negative mantissa (power - fraction.length) with
    | .finite n m => .number (.finite n m)
    | _ => .unusable (power < 10 * 2 ^ 31)
  if fraction.isEmpty && exponent.isNone then
    if negative then
      if 0 < mantissa ∧ mantissa ≤ 2 ^ 63 then .integer (-mantissa) else approximate
    else if mantissa < 2 ^ 64 then .integer mantissa
    else approximate
  else approximate

/-- A number whose sign has been read. -/
def readUnsigned (negative : Bool) (cs : List Symbol) : Json × Option (List Symbol) :=
  match readWhole? cs with
  | none => (.broken, none)
  | some (whole, rest) =>
    match readFraction? rest with
    | none => (.broken, none)
    | some (fraction, rest) =>
      match readExponent? rest with
      | none => (.broken, none)
      | some (exponent, rest) => (numberTree negative whole fraction exponent, some rest)

/-! ## 4. Values -/

mutual

/-- A value at the head of the text, and what follows it if it makes sense. -/
def readValue : Nat → List Symbol → Json × Option (List Symbol)
  | 0, _ => (.broken, none)
  | fuel + 1, cs =>
    match cs.dropWhile isSpace with
    | some 'n' :: rest => readLiteral .null ['u', 'l', 'l'] rest
    | some 't' :: rest => readLiteral (.bool true) ['r', 'u', 'e'] rest
    | some 'f' :: rest => readLiteral (.bool false) ['a', 'l', 's', 'e'] rest
    | some '"' :: rest => readString rest
    | some '-' :: rest => readUnsigned true rest
    | some '[' :: rest =>
      match rest.dropWhile isSpace with
      | some ']' :: rest => (.array .closed, some rest)
      | rest =>
        let (items, rest) := readItems fuel rest
        (.array items, rest)
    | some '\x7b' :: rest =>
      match rest.dropWhile isSpace with
      | some '\x7d' :: rest => (.object .closed, some rest)
      | rest =>
        let (members, rest) := readMembers fuel rest
        (.object members, rest)
    | some c :: rest => if c.isDigit then readUnsigned false (some c :: rest) else (.broken, none)
    | _ => (.broken, none)

/-- The items of an array, at least one of which must follow. -/
def readItems : Nat → List Symbol → Items × Option (List Symbol)
  | 0, _ => (.broken, none)
  | fuel + 1, cs =>
    match readValue fuel cs with
    | (j, none) => (.cons j .broken, none)
    | (j, some rest) =>
      match rest.dropWhile isSpace with
      | some ']' :: rest => (.cons j .closed, some rest)
      | some ',' :: rest =>
        let (items, rest) := readItems fuel rest
        (.cons j items, rest)
      | _ => (.cons j .broken, none)

/-- The members of an object, at least one of which must follow. -/
def readMembers : Nat → List Symbol → Members × Option (List Symbol)
  | 0, _ => (.broken, none)
  | fuel + 1, cs =>
    match cs.dropWhile isSpace with
    | some '"' :: rest =>
      match scanString rest with
      | none => (.broken, none)
      | some (pieces, rest) =>
        let name := (joinPieces pieces).toOption.map String.ofList
        match rest.dropWhile isSpace with
        | some ':' :: rest =>
          match readValue fuel rest with
          | (j, none) => (.cons name j .broken, none)
          | (j, some rest) =>
            match rest.dropWhile isSpace with
            | some '\x7d' :: rest => (.cons name j .closed, some rest)
            | some ',' :: rest =>
              let (members, rest) := readMembers fuel rest
              (.cons name j members, rest)
            | _ => (.cons name j .broken, none)
        | _ => (.cons name .broken .broken, none)
    | _ => (.broken, none)

end

/-! ## 5. Whole texts -/

/-- The tree of some symbols, and what follows its value. -/
def readSymbols (cs : List Symbol) : Json × Option (List Symbol) :=
  readValue (2 * cs.length + 2) cs

/-- What follows a value in a text is blank. -/
def endsThere : Option (List Symbol) → Bool
  | some rest => rest.all isSpace
  | none => false

/-- The tree of a text that holds one value and nothing else, and that has a
value in every part; arrays and objects may nest 127 deep. -/
def ofText? (s : String) : Option Json :=
  let (j, rest) := readSymbols (s.toList.map some)
  if j.isSound && endsThere rest && decide (j.depth < 128) then some j else none

end Reckoner.Json
