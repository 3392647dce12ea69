/-
Reckoner.Proofs.Text.Hex — hexadecimal text reads back.

A byte is written as two digits, and each digit is one byte of UTF-8, so the pairs
that reading looks at are just those that writing put there (`decode_of_encode`). No
two lists of bytes have one text (`encode_injective`).
-/
import Reckoner.Text.Hex

namespace Reckoner.Text

/-- An ASCII character is one byte. -/
theorem utf8_ofList {cs : List Char} (h : ∀ c ∈ cs, c.toNat < 128) :
    utf8 (String.ofList cs) = cs.map fun c => UInt8.ofNat c.toNat := by
  have hbytes : utf8 (String.ofList cs) = cs.flatMap String.utf8EncodeChar := by
    simp [utf8, List.utf8Encode]
  rw [hbytes]
  induction cs with
  | nil => rfl
  | cons c cs ih =>
    have hc : c.val.toNat ≤ 127 := Nat.lt_succ_iff.1 (h c List.mem_cons_self)
    have hchar : String.utf8EncodeChar c = [UInt8.ofNat c.toNat] := if_pos hc
    rw [List.flatMap_cons, List.map_cons, hchar,
      ih (fun d hd => h d (List.mem_cons_of_mem _ hd)) (by simp [utf8, List.utf8Encode])]
    rfl

namespace Hex

/-- The bytes of the two digits of a byte. -/
def byteDigits (b : UInt8) : List UInt8 := (byteChars b).map fun c => UInt8.ofNat c.toNat

theorem digitChar_facts : ∀ n < 16, (Nat.digitChar n).toNat < 128 ∧
    digit? (UInt8.ofNat (Nat.digitChar n).toNat) = some n := by
  decide

theorem utf8_encode (bytes : List UInt8) : utf8 (encode bytes) = bytes.flatMap byteDigits := by
  rw [encode, utf8_ofList]
  · simp only [List.map_flatMap]
    rfl
  · intro c hc
    obtain ⟨b, -, hb⟩ := List.mem_flatMap.1 hc
    have hlt := b.toNat_lt
    simp only [byteChars, List.mem_cons, List.not_mem_nil, or_false] at hb
    rcases hb with rfl | rfl
    · exact (digitChar_facts _ (by omega)).1
    · exact (digitChar_facts _ (by omega)).1

theorem decodePairs_cons (position : Nat) (b : UInt8) (rest : List UInt8) :
    decodePairs position (byteDigits b ++ rest) =
      (decodePairs (position + 2) rest).map (b :: ·) := by
  have hlt := b.toNat_lt
  have hhigh := (digitChar_facts (b.toNat / 16) (by omega)).2
  have hlow := (digitChar_facts (b.toNat % 16) (by omega)).2
  have hbyte : UInt8.ofNat (16 * (b.toNat / 16) + b.toNat % 16) = b := by
    rw [Nat.div_add_mod, UInt8.ofNat_toNat]
  simp only [byteDigits, byteChars, List.map_cons, List.map_nil, List.cons_append,
    List.nil_append, decodePairs, hhigh, hlow, hbyte]

theorem decodePairs_flatMap (bytes : List UInt8) (position : Nat) :
    decodePairs position (bytes.flatMap byteDigits) = .ok bytes := by
  induction bytes generalizing position with
  | nil => rfl
  | cons b bytes ih =>
    rw [List.flatMap_cons, decodePairs_cons, ih]
    rfl

theorem length_flatMap_byteDigits (bytes : List UInt8) :
    (bytes.flatMap byteDigits).length = 2 * bytes.length := by
  induction bytes with
  | nil => rfl
  | cons b bytes ih =>
    have hb : (byteDigits b).length = 2 := rfl
    rw [List.flatMap_cons, List.length_append, hb, ih, List.length_cons]
    omega

/-- What is written is read back, every byte of it. -/
theorem decode_of_encode (bytes : List UInt8) : decode (encode bytes) = .ok bytes := by
  have heven : ¬ (bytes.flatMap byteDigits).length % 2 = 1 := by
    rw [length_flatMap_byteDigits]
    omega
  unfold decode
  simp only [utf8_encode, if_neg heven, decodePairs_flatMap]

theorem encode_injective {as bs : List UInt8} (h : encode as = encode bs) : as = bs := by
  have hread := decode_of_encode as
  rw [h, decode_of_encode] at hread
  exact (Except.ok.inj hread).symm

end Hex

end Reckoner.Text
