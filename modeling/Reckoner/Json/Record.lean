/-
Reckoner.Json.Record — records out of trees.

A record is written as an object, whose names may come in any order and among
names it does not know, or as an array of its fields in their order, of which
those at the end that have a default may be missing. Decoding meets the faults
of the text in the order in which they stand there and reports the first: the
text is ill formed, or it is well formed up to there and has the wrong shape.

  1. Faults
  2. Single values
  3. Records
  4. Whole texts
-/
import Reckoner.Json.Reader

namespace Reckoner.Json

/-! ## 1. Faults -/

/-- Why a text does not decode. -/
inductive Fault where
  /-- The text is no JSON. -/
  | illFormed
  /-- The text is JSON as far as it was read, but not of the type asked for. -/
  | wrongShape
deriving DecidableEq

/-- The fault of using a value where another type is asked for. -/
def misfit : Json → Fault
  | .broken => .illFormed
  | .unusable _ => .illFormed
  | _ => .wrongShape

/-! ## 2. Single values -/

/-- An integer from `low` up to but not including `high`. -/
def asIntegerIn (low high : Int) : Json → Except Fault Int
  | .integer n => if low ≤ n ∧ n < high then .ok n else .error .wrongShape
  | j => .error j.misfit

/-- An integer that fits a signed 64-bit word. -/
def asSigned64 : Json → Except Fault Int := asIntegerIn (-2 ^ 63) (2 ^ 63)

/-- An integer that fits an unsigned 64-bit word. -/
def asUnsigned64 (j : Json) : Except Fault Nat := (asIntegerIn 0 (2 ^ 64) j).map Int.toNat

/-- Any number. -/
def asNumber : Json → Except Fault Number
  | .integer n => .ok (Number.ofInt n)
  | .number x => .ok x
  | j => .error j.misfit

/-- A string. -/
def asText : Json → Except Fault String
  | .text s => .ok s
  | j => .error j.misfit

/-- `null`, or what the decoder takes. -/
def asOptional {α : Type} (decode : Json → Except Fault α) : Json → Except Fault (Option α)
  | .null => .ok none
  | j => (decode j).map some

/-- A word of a fixed list, as a string or as the only name of an object whose
value is `null`. -/
def asWord {α : Type} (ofWord? : String → Option α) : Json → Except Fault α
  | .text s =>
    match ofWord? s with
    | some a => .ok a
    | none => .error .wrongShape
  | .object (.cons (some s) j ms) =>
    match ofWord? s, j, ms with
    | none, _, _ => .error .wrongShape
    | some a, .null, .closed => .ok a
    | some _, .null, _ => .error .illFormed
    | some _, j, _ => .error j.misfit
  | _ => .error .illFormed

/-! ## 3. Records -/

/-- A field of a record under construction, with the names it goes by. -/
structure Slot (σ : Type) where
  names : List String
  put : Json → σ → Except Fault σ

/-- A field that is filled at most once: filling it again is a fault, whatever
the second value is. -/
def Slot.once {σ α : Type} (names : List String) (get : σ → Option α) (set : α → σ → σ)
    (decode : Json → Except Fault α) : Slot σ where
  names := names
  put j s := if (get s).isSome then .error .wrongShape else (decode j).map (set · s)

/-- Fills a record from the members of an object. -/
def fillByName {σ : Type} (slots : List (Slot σ)) (s : σ) : Members → Except Fault σ
  | .closed => .ok s
  | .broken => .error .illFormed
  | .cons none _ _ => .error .illFormed
  | .cons (some name) j ms =>
    match slots.find? (·.names.contains name) with
    | some slot =>
      match slot.put j s with
      | .ok s => fillByName slots s ms
      | .error e => .error e
    | none => if j.wellFormed then fillByName slots s ms else .error .illFormed

/-- Fills a record from the items of an array, field by field. -/
def fillByPlace {σ : Type} : List (Slot σ) → σ → Items → Except Fault σ
  | _, s, .closed => .ok s
  | _, _, .broken => .error .illFormed
  | [], _, .cons _ _ => .error .illFormed
  | slot :: slots, s, .cons j js =>
    match slot.put j s with
    | .ok s => fillByPlace slots s js
    | .error e => .error e

/-- A record: `finish` says what the filled fields amount to, or that a field
without a default is missing. -/
def asRecord {σ α : Type} (slots : List (Slot σ)) (empty : σ) (finish : σ → Option α)
    (j : Json) : Except Fault α :=
  let filled := match j with
    | .object members => fillByName slots empty members
    | .array items => fillByPlace slots empty items
    | j => .error j.misfit
  filled.bind fun s =>
    match finish s with
    | some a => .ok a
    | none => .error .wrongShape

/-! ## 4. Whole texts -/

/-- Decodes symbols that hold one value and nothing else. -/
def decodeSymbols {α : Type} (decoder : Json → Except Fault α) (cs : List Text.Symbol) :
    Except Fault α :=
  let (j, rest) := readSymbols cs
  (decoder j).bind fun a => if endsThere rest then .ok a else .error .illFormed

/-- Decodes a text that holds one value and nothing else. -/
def decode {α : Type} (decoder : Json → Except Fault α) (s : String) : Except Fault α :=
  decodeSymbols decoder (s.toList.map some)

/-- Decodes the bytes of a text that holds one value and nothing else. -/
def decodeBytes {α : Type} (decoder : Json → Except Fault α) (bytes : List UInt8) :
    Except Fault α :=
  decodeSymbols decoder (Text.symbols bytes)

theorem decodeBytes_utf8 {α : Type} (decoder : Json → Except Fault α) (s : String) :
    decodeBytes decoder (Text.utf8 s) = decode decoder s := by
  rw [decodeBytes, Text.symbols_utf8, decode]

end Reckoner.Json
