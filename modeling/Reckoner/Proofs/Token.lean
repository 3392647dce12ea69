/-
Reckoner.Proofs.Token — a signed token opens under the secret it was signed with.

The three parts of a token are written in an alphabet that has no dot
(`notMem_encode`), so the two last dots are the ones that signing put there, and what is
verified is what was signed (`openToken_sign`), whatever the digest does. A token has
none but visible characters (`toNat_bounds_of_mem_sign`).

  1. The alphabet of base64
  2. The parts of a signed token
  3. Opening a signed token
  4. Characters of a token
-/
import Mathlib.Data.List.TakeWhile
import Reckoner.Token

namespace Reckoner

/-! ## 1. The alphabet of base64 -/

namespace Text.Base64Url

/-- The character stands for a value. -/
def InAlphabet (c : Char) : Prop := ∃ n < 64, c = charOf n

theorem inAlphabet_of_mem_encodeChars {c : Char} (bytes : List UInt8) (h : c ∈ encodeChars bytes) :
    InAlphabet c := by
  induction bytes using encodeChars.induct with
  | case1 => cases h
  | case2 a =>
    have ha := a.toNat_lt
    simp only [encodeChars, List.mem_cons, List.not_mem_nil, or_false] at h
    rcases h with rfl | rfl
    · exact ⟨_, by omega, rfl⟩
    · exact ⟨_, by omega, rfl⟩
  | case3 a b =>
    have ha := a.toNat_lt
    have hb := b.toNat_lt
    simp only [encodeChars, List.mem_cons, List.not_mem_nil, or_false] at h
    rcases h with rfl | rfl | rfl
    · exact ⟨_, by omega, rfl⟩
    · exact ⟨_, by omega, rfl⟩
    · exact ⟨_, by omega, rfl⟩
  | case4 a b c' rest ih =>
    have ha := a.toNat_lt
    have hb := b.toNat_lt
    have hc := c'.toNat_lt
    simp only [encodeChars, List.mem_cons] at h
    rcases h with rfl | rfl | rfl | rfl | h
    · exact ⟨_, by omega, rfl⟩
    · exact ⟨_, by omega, rfl⟩
    · exact ⟨_, by omega, rfl⟩
    · exact ⟨_, by omega, rfl⟩
    · exact ih h

/-- The alphabet lies between the minus sign and the letter z. -/
theorem InAlphabet.toNat_bounds {c : Char} (h : InAlphabet c) : 45 ≤ c.toNat ∧ c.toNat ≤ 122 := by
  have hall : ∀ n < 64, 45 ≤ (charOf n).toNat ∧ (charOf n).toNat ≤ 122 := by decide
  obtain ⟨n, hn, rfl⟩ := h
  exact hall n hn

theorem InAlphabet.ne_dot {c : Char} (h : InAlphabet c) : c ≠ '.' := by
  have hall : ∀ n < 64, charOf n ≠ '.' := by decide
  obtain ⟨n, hn, rfl⟩ := h
  exact hall n hn

theorem notMem_encode (bytes : List UInt8) : '.' ∉ (encode bytes).toList := by
  rw [encode, String.toList_ofList]
  exact fun h => (inAlphabet_of_mem_encodeChars bytes h).ne_dot rfl

end Text.Base64Url

namespace Token

open Text.Base64Url (InAlphabet notMem_encode inAlphabet_of_mem_encodeChars)

/-! ## 2. The parts of a signed token -/

theorem splitLastDot?_append {before last : List Char} (h : '.' ∉ last) :
    splitLastDot? (before ++ '.' :: last) = some (before, last) := by
  have hlast : ∀ c ∈ last.reverse, decide (c ≠ '.') = true := by
    intro c hc
    exact decide_eq_true (ne_of_mem_of_not_mem (List.mem_reverse.1 hc) h)
  have hreverse : (before ++ '.' :: last).reverse = last.reverse ++ '.' :: before.reverse := by
    rw [List.reverse_append, List.reverse_cons, List.append_assoc, List.singleton_append]
  rw [splitLastDot?, hreverse, List.takeWhile_append_of_pos hlast,
    List.dropWhile_append_of_pos hlast, List.takeWhile_cons_of_neg (by decide),
    List.dropWhile_cons_of_neg (by decide), List.append_nil, List.reverse_reverse]
  exact congrArg some (congrArg (·, last) (List.reverse_reverse before))

theorem toList_signedPart (c : Claims) :
    (signedPart c).toList = (part header).toList ++ '.' :: (part c.toJson).toList := by
  rw [signedPart, String.toList_append, String.toList_append, List.append_assoc]
  rfl

theorem toList_sign (secret : String) (c : Claims) :
    (sign secret c).toList =
      (signedPart c).toList ++ '.' :: (tag secret (signedPart c)).toList := by
  rw [sign, String.toList_append, String.toList_append, List.append_assoc]
  rfl

/-! ## 3. Opening a signed token -/

/-- The header of every token that is issued names the method that is accepted. -/
theorem readPart_header : readPart algorithmOf (part header).toList = .ok algorithm := by
  decide +kernel

/-- Under any secret a signed token opens to what its part for claims says, unless the
tag under that secret is another one. -/
theorem openToken_sign_under (secret secret' : String) (c : Claims) :
    openToken secret' (sign secret c) =
      if tag secret (signedPart c) ≠ tag secret' (signedPart c) then .error .invalidSignature
      else (do
        let claims ← readPart Claims.ofJson (part c.toJson).toList
        let addressed ← readPart hasAudience (part c.toJson).toList
        pure (claims, addressed)) := by
  have hmessage : splitLastDot? (sign secret c).toList =
      some ((signedPart c).toList, (tag secret (signedPart c)).toList) := by
    rw [toList_sign]
    exact splitLastDot?_append (notMem_encode _)
  have hparts : splitLastDot? (signedPart c).toList =
      some ((part header).toList, (part c.toJson).toList) := by
    rw [toList_signedPart]
    exact splitLastDot?_append (notMem_encode _)
  rw [openToken, hmessage]
  simp only [hparts, readPart_header, bind, Except.bind, String.ofList_toList, ne_eq,
    not_true_eq_false, if_false]

/-- A signed token opens to what its part for claims says. -/
theorem openToken_sign (secret : String) (c : Claims) :
    openToken secret (sign secret c) = (do
      let claims ← readPart Claims.ofJson (part c.toJson).toList
      let addressed ← readPart hasAudience (part c.toJson).toList
      pure (claims, addressed)) := by
  rw [openToken_sign_under, if_neg (not_not_intro rfl)]

/-- A signed token names its subject while its claims hold, if they are read back as
they were written. -/
theorem verify_sign {secret : String} {now : Int} {c : Claims}
    (hread : readPart Claims.ofJson (part c.toJson).toList = .ok c)
    (haddressed : readPart hasAudience (part c.toJson).toList = .ok false)
    (hhold : c.holdAt now = .ok ()) :
    verify secret now (sign secret c) = .ok c.subject := by
  have hopen : openToken secret (sign secret c) = .ok (c, false) := by
    rw [openToken_sign, hread, haddressed]
    rfl
  rw [verify, hopen]
  simp only [bind, Except.bind, hhold]
  rfl

/-! ## 4. Characters of a token -/

/-- Every character of a token is a dot or one of the alphabet. -/
theorem forall_mem_sign (secret : String) (c : Claims) :
    ∀ x ∈ (sign secret c).toList, x = '.' ∨ InAlphabet x := by
  have hencode : ∀ bytes, ∀ x ∈ (Text.Base64Url.encode bytes).toList, x = '.' ∨ InAlphabet x := by
    intro bytes x hx
    rw [Text.Base64Url.encode, String.toList_ofList] at hx
    exact .inr (inAlphabet_of_mem_encodeChars bytes hx)
  rw [toList_sign, toList_signedPart]
  rw [List.forall_mem_append, List.forall_mem_append, List.forall_mem_cons, List.forall_mem_cons]
  exact ⟨⟨hencode _, .inl rfl, hencode _⟩, .inl rfl, hencode _⟩

theorem toNat_bounds_of_mem_sign {secret : String} {c : Claims} {x : Char}
    (h : x ∈ (sign secret c).toList) : 45 ≤ x.toNat ∧ x.toNat ≤ 122 := by
  rcases forall_mem_sign secret c x h with rfl | hx
  · decide
  · exact hx.toNat_bounds

end Token

end Reckoner
