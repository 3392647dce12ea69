/-
Reckoner.Text.Utf8 — texts as bytes.

  1. Texts
  2. Bytes that need not be a text
-/
namespace Reckoner.Text

/-! ## 1. Texts -/

/-- The UTF-8 bytes of a text. -/
def utf8 (s : String) : List UInt8 := s.toUTF8.data.toList

/-- The text with the given UTF-8 bytes, if they are well formed. -/
def ofUtf8? (bytes : List UInt8) : Option String := String.fromUTF8? ⟨bytes.toArray⟩

theorem utf8_append (s t : String) : utf8 (s ++ t) = utf8 s ++ utf8 t := by
  simp [utf8]

theorem ofUtf8?_utf8 (s : String) : ofUtf8? (utf8 s) = some s := by
  have hbytes : (⟨(utf8 s).toArray⟩ : ByteArray) = s.toByteArray := by
    rw [utf8, Array.toArray_toList]
    rfl
  rw [ofUtf8?, hbytes, String.fromUTF8?, dif_pos s.isValidUTF8]
  rfl

/-- The number of bytes a text takes. -/
def byteLength (s : String) : Nat := s.utf8ByteSize

/-! ## 2. Bytes that need not be a text -/

/-- A character, or a byte that is part of none. -/
abbrev Symbol := Option Char

/-- The character at the head of some bytes. No character has more than four. -/
def headChar? (bytes : List UInt8) : Option Char :=
  ByteArray.utf8DecodeChar? ⟨(bytes.take 4).toArray⟩ 0

/-- The symbols of some bytes, from left to right: where no character begins,
one byte is passed over. -/
def scanSymbols : List UInt8 → List Symbol
  | [] => []
  | b :: bs =>
    match headChar? (b :: bs) with
    | some c => some c :: scanSymbols (bs.drop (c.utf8Size - 1))
    | none => none :: scanSymbols bs
termination_by bytes => bytes.length
decreasing_by all_goals simp only [List.length_drop, List.length_cons]; omega

/-- The symbols of some bytes. -/
def symbols (bytes : List UInt8) : List Symbol :=
  match ofUtf8? bytes with
  | some s => s.toList.map some
  | none => scanSymbols bytes

theorem symbols_utf8 (s : String) : symbols (utf8 s) = s.toList.map some := by
  rw [symbols, ofUtf8?_utf8]

end Reckoner.Text
