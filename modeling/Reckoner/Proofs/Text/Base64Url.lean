/-
Reckoner.Proofs.Text.Base64Url — bytes are read back from their base64 text.

Three bytes are cut into four values of six bits, and a rest of one or two bytes
into two or three of which the last has its low bits clear. The reader joins the
values again, so every list of bytes is read back (`decodeChars?_encodeChars`),
and no two lists have the same text (`encode_injective`).
-/
import Reckoner.Text.Base64Url

namespace Reckoner.Text.Base64Url

/-- The first byte of three is split between the first value and the second. -/
theorem join_first (a : UInt8) (low : Nat) (h : low < 16) :
    UInt8.ofNat (a.toNat / 4 * 4 + (a.toNat % 4 * 16 + low) / 16) = a := by
  have hsum : a.toNat / 4 * 4 + (a.toNat % 4 * 16 + low) / 16 = a.toNat := by omega
  rw [hsum, UInt8.ofNat_toNat]

/-- The second byte of three is split between the second value and the third. -/
theorem join_second (b : UInt8) (high low : Nat) (h : low < 4) :
    UInt8.ofNat ((high * 16 + b.toNat / 16) % 16 * 16 + (b.toNat % 16 * 4 + low) / 4) = b := by
  have hb := b.toNat_lt
  have hsum : (high * 16 + b.toNat / 16) % 16 * 16 + (b.toNat % 16 * 4 + low) / 4 = b.toNat := by
    omega
  rw [hsum, UInt8.ofNat_toNat]

/-- The third byte of three is split between the third value and the fourth. -/
theorem join_third (c : UInt8) (high : Nat) :
    UInt8.ofNat ((high * 4 + c.toNat / 64) % 4 * 64 + c.toNat % 64) = c := by
  have hc := c.toNat_lt
  have hsum : (high * 4 + c.toNat / 64) % 4 * 64 + c.toNat % 64 = c.toNat := by omega
  rw [hsum, UInt8.ofNat_toNat]

/-- The characters of some bytes stand for values that make up those bytes. -/
theorem exists_values (bytes : List UInt8) :
    ∃ values, (encodeChars bytes).mapM valueOf? = some values ∧
      bytesOfValues? values = some bytes := by
  induction bytes using encodeChars.induct with
  | case1 => exact ⟨[], rfl, rfl⟩
  | case2 a =>
    have ha := a.toNat_lt
    refine ⟨[a.toNat / 4, a.toNat % 4 * 16], ?_, ?_⟩
    · simp [encodeChars, valueOf?_charOf _ (show a.toNat / 4 < 64 by omega),
        valueOf?_charOf _ (show a.toNat % 4 * 16 < 64 by omega)]
    · have hfirst := join_first a 0 (by decide)
      rw [bytesOfValues?, if_pos (by omega)]
      simpa using hfirst
  | case3 a b =>
    have ha := a.toNat_lt
    have hb := b.toNat_lt
    refine ⟨[a.toNat / 4, a.toNat % 4 * 16 + b.toNat / 16, b.toNat % 16 * 4], ?_, ?_⟩
    · simp [encodeChars, valueOf?_charOf _ (show a.toNat / 4 < 64 by omega),
        valueOf?_charOf _ (show a.toNat % 4 * 16 + b.toNat / 16 < 64 by omega),
        valueOf?_charOf _ (show b.toNat % 16 * 4 < 64 by omega)]
    · have hfirst := join_first a (b.toNat / 16) (by omega)
      have hsecond := join_second b (a.toNat % 4) 0 (by decide)
      rw [Nat.add_zero] at hsecond
      rw [bytesOfValues?, if_pos (by omega), hfirst, hsecond]
  | case4 a b c rest ih =>
    have ha := a.toNat_lt
    have hb := b.toNat_lt
    have hc := c.toNat_lt
    obtain ⟨values, hvalues, hbytes⟩ := ih
    refine ⟨a.toNat / 4 :: (a.toNat % 4 * 16 + b.toNat / 16) ::
      (b.toNat % 16 * 4 + c.toNat / 64) :: c.toNat % 64 :: values, ?_, ?_⟩
    · simp [encodeChars, hvalues, valueOf?_charOf _ (show a.toNat / 4 < 64 by omega),
        valueOf?_charOf _ (show a.toNat % 4 * 16 + b.toNat / 16 < 64 by omega),
        valueOf?_charOf _ (show b.toNat % 16 * 4 + c.toNat / 64 < 64 by omega),
        valueOf?_charOf _ (show c.toNat % 64 < 64 by omega)]
    · have hfirst := join_first a (b.toNat / 16) (by omega)
      have hsecond := join_second b (a.toNat % 4) (c.toNat / 64) (by omega)
      have hthird := join_third c (b.toNat % 16)
      rw [bytesOfValues?, hbytes, hfirst, hsecond, hthird]
      rfl

theorem decodeChars?_encodeChars (bytes : List UInt8) :
    decodeChars? (encodeChars bytes) = some bytes := by
  obtain ⟨values, hvalues, hbytes⟩ := exists_values bytes
  simp [decodeChars?, hvalues, hbytes]

theorem decodeChars?_encode (bytes : List UInt8) :
    decodeChars? (encode bytes).toList = some bytes := by
  simp [encode, decodeChars?_encodeChars]

/-- Bytes that differ have texts that differ. -/
theorem encode_injective {bytes bytes' : List UInt8} (h : encode bytes = encode bytes') :
    bytes = bytes' := by
  have hread := decodeChars?_encode bytes
  rw [h, decodeChars?_encode] at hread
  exact (Option.some.inj hread).symm

end Reckoner.Text.Base64Url
