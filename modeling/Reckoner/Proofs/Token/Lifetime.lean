/-
Reckoner.Proofs.Token.Lifetime — an issued token holds exactly within its lifetime.

The claims of a token are four whole numbers. Each fits its word, so the claims
are read back from the part that says them (`readPart_claims`), and what verifying
answers is decided by the clock and the tag alone (`verify_sign_eq`). The claims of
a token that is issued begin at the time of issue and end a lifetime later
(`issued_token_holds_exactly_within_lifetime`).

  1. Claims and their JSON
  2. Verifying a signed token
  3. Issued tokens
-/
import Reckoner.Proofs.Task.Codec
import Reckoner.Proofs.Text.Base64Url
import Reckoner.Proofs.Token

namespace Reckoner.Token

/-! ## 1. Claims and their JSON -/

/-- The numbers of the claims fit the words that they are kept in. -/
structure Claims.FitsWords (c : Claims) : Prop where
  subject : Text.fitsSigned64 c.subject = true
  issuedAt : Text.fitsSigned64 c.issuedAt = true
  notBefore : Text.fitsSigned64 c.notBefore = true
  expires : Text.fitsSigned64 c.expires = true

variable {c : Claims}

theorem Claims.writable_toJson (h : c.FitsWords) : c.toJson.Writable := by
  refine Json.writable_ofMembers ?_
  intro m hm
  simp only [List.mem_cons, List.not_mem_nil, or_false] at hm
  rcases hm with rfl | rfl | rfl | rfl
  · exact Json.writable_integer h.subject
  · exact Json.writable_integer h.issuedAt
  · exact Json.writable_integer h.notBefore
  · exact Json.writable_integer h.expires

theorem Claims.ofJson_toJson (h : c.FitsWords) : ofJson c.toJson = .ok c := by
  have hfill : Json.fillByName claimsSlots {} (.ofList
      [("sub", .integer c.subject), ("iat", .integer c.issuedAt),
        ("nbf", .integer c.notBefore), ("exp", .integer c.expires)]) =
      .ok ⟨some c.subject, some c.issuedAt, some c.notBefore, some c.expires⟩ := by
    simp only [Json.Members.ofList]
    rw [Json.fillByName_cons rfl (Json.put_once rfl (Json.asSigned64_integer h.subject)),
      Json.fillByName_cons rfl (Json.put_once rfl (Json.asSigned64_integer h.issuedAt)),
      Json.fillByName_cons rfl (Json.put_once rfl (Json.asSigned64_integer h.notBefore)),
      Json.fillByName_cons rfl (Json.put_once rfl (Json.asSigned64_integer h.expires))]
    rfl
  exact Json.asRecord_ofMembers hfill rfl

/-- Claims are meant for nobody in particular. -/
theorem hasAudience_toJson (c : Claims) : hasAudience c.toJson = .ok false := rfl

/-! ## 2. Verifying a signed token -/

/-- A part of a token decodes to what its JSON does. -/
theorem readPart_part {α : Type} (decoder : Json → Except Json.Fault α) {j : Json}
    (h : j.Writable) :
    readPart decoder (part j).toList = (decoder j).mapError fun _ => .json := by
  rw [readPart, part, Text.Base64Url.decodeChars?_encode]
  simp only [Json.decodeBytes_utf8, Json.decode_render decoder h]

theorem readPart_claims (h : c.FitsWords) :
    readPart Claims.ofJson (part c.toJson).toList = .ok c := by
  rw [readPart_part _ (Claims.writable_toJson h), Claims.ofJson_toJson h]
  rfl

theorem readPart_audience (h : c.FitsWords) :
    readPart hasAudience (part c.toJson).toList = .ok false := by
  rw [readPart_part _ (Claims.writable_toJson h), hasAudience_toJson]
  rfl

/-- A token names its subject if its claims hold, and else is refused as they are. -/
theorem verify_sign_eq (h : c.FitsWords) (secret : String) (now : Int) :
    verify secret now (sign secret c) = (c.holdAt now).map fun _ => c.subject := by
  have hopen : openToken secret (sign secret c) = .ok (c, false) := by
    rw [openToken_sign, readPart_claims h, readPart_audience h]
    rfl
  rw [verify, hopen]
  cases hhold : c.holdAt now with
  | error e => simp [bind, Except.bind, Except.map, hhold]
  | ok u => simp [bind, Except.bind, Except.map, hhold, pure, Except.pure]

/-- Where the tag is another one, neither the claims nor the clock matter. -/
theorem verify_sign_of_tag_ne {secret other : String}
    (h : Digest.hmac (Text.utf8 other) (Text.utf8 (signedPart c)) ≠
      Digest.hmac (Text.utf8 secret) (Text.utf8 (signedPart c))) (now : Int) :
    verify other now (sign secret c) = .error .invalidSignature := by
  have htag : tag secret (signedPart c) ≠ tag other (signedPart c) := by
    intro heq
    exact h (Text.Base64Url.encode_injective heq).symm
  rw [verify, openToken_sign_under, if_pos htag]
  rfl

/-! ## 3. Issued tokens -/

/-- Seconds that fit a signed word are counted as they are. -/
theorem signedSeconds_eq_self {seconds : Int} (hlow : 0 ≤ seconds) (hhigh : seconds < 2 ^ 63) :
    signedSeconds seconds = seconds := by
  have hpow : ((2 ^ 64 : Nat) : Int) = 2 ^ 64 := by decide
  refine Int.bmod_eq_of_le ?_ ?_
  · omega
  · omega

variable {user now : Int} {lifetime : Nat}

theorem Claims.issue_eq (hnow : 0 ≤ now) (hend : now + lifetime < 2 ^ 63) :
    Claims.issue user now lifetime = ⟨user, now, now, now + lifetime⟩ := by
  have hlifetime : signedSeconds lifetime = lifetime :=
    signedSeconds_eq_self (Int.natCast_nonneg lifetime) (by omega)
  rw [Claims.issue, hlifetime, signedSeconds_eq_self (by omega) hend]

theorem Claims.fitsWords_issue (huser : Text.fitsSigned64 user = true) (hnow : 0 ≤ now)
    (hend : now + lifetime < 2 ^ 63) : (Claims.issue user now lifetime).FitsWords := by
  rw [Claims.issue_eq hnow hend]
  have hfits : ∀ t : Int, 0 ≤ t → t ≤ now + lifetime → Text.fitsSigned64 t = true := by
    intro t hlow hhigh
    exact decide_eq_true ⟨by omega, by omega⟩
  exact ⟨huser, hfits now hnow (by omega), hfits now hnow (by omega),
    hfits (now + lifetime) (by omega) (by omega)⟩

/-- When the claims of an issued token hold, and why they do not at other times. -/
theorem Claims.holdAt_issue (hnow : 0 ≤ now) (hend : now + lifetime < 2 ^ 63) (t : Int) :
    (Claims.issue user now lifetime).holdAt t =
      if now + lifetime < t then .error .expired
      else if t < now then .error .immature
      else .ok () := by
  rw [Claims.issue_eq hnow hend, holdAt]
  have hexpires : ¬ now + (lifetime : Int) < 0 := by omega
  simp only [hexpires, if_false]

/-- A token that is issued to a user at some time is accepted under the same secret, and
names that user, from that time on until its lifetime is over, and at no other time:
before, it is immature, and afterwards it has expired. Under a secret that gives it
another tag its signature is refused at any time. -/
theorem issued_token_holds_exactly_within_lifetime (huser : Text.fitsSigned64 user = true)
    (hnow : 0 ≤ now) (hend : now + lifetime < 2 ^ 63) (secret : String) (t : Int) :
    let token := issue secret lifetime now user
    (verify secret t token = .ok user ↔ now ≤ t ∧ t ≤ now + lifetime) ∧
    (t < now → verify secret t token = .error .immature) ∧
    (now + lifetime < t → verify secret t token = .error .expired) ∧
    ∀ other,
      Digest.hmac (Text.utf8 other) (Text.utf8 (signedPart (.issue user now lifetime))) ≠
        Digest.hmac (Text.utf8 secret) (Text.utf8 (signedPart (.issue user now lifetime))) →
      verify other t token = .error .invalidSignature := by
  intro token
  have hverify : verify secret t token =
      ((Claims.issue user now lifetime).holdAt t).map fun _ => user :=
    verify_sign_eq (Claims.fitsWords_issue huser hnow hend) secret t
  rw [Claims.holdAt_issue hnow hend] at hverify
  refine ⟨?accepted, ?before, ?after, ?forged⟩
  case accepted =>
    rw [hverify]
    split
    · simp [Except.map]
      omega
    · split
      · simp [Except.map]
        omega
      · simp [Except.map]
        omega
  case before =>
    intro hearly
    rw [hverify, if_neg (by omega), if_pos hearly]
    rfl
  case after =>
    intro hlate
    rw [hverify, if_pos hlate]
    rfl
  case forged =>
    intro other hother
    exact verify_sign_of_tag_ne hother t

/-- The least user and the last second of all. -/
theorem issued_token_holds_at_last_second :
    let user : Int := -2 ^ 63
    let now : Int := 2 ^ 63 - 121
    let token := issue "one" 120 now user
    Text.fitsSigned64 user = true ∧ 0 ≤ now ∧ now + (120 : Nat) < 2 ^ 63 ∧
    Digest.hmac (Text.utf8 "two") (Text.utf8 (signedPart (.issue user now 120))) ≠
      Digest.hmac (Text.utf8 "one") (Text.utf8 (signedPart (.issue user now 120))) ∧
    verify "one" (now - 1) token = .error .immature ∧ verify "one" now token = .ok user ∧
    verify "one" (now + 120) token = .ok user ∧ verify "one" (now + 121) token = .error .expired ∧
    verify "two" now token = .error .invalidSignature := by
  intro user now token
  have huser : Text.fitsSigned64 user = true := by decide
  have hnow : 0 ≤ now := by decide
  have hend : now + (120 : Nat) < 2 ^ 63 := by decide
  have htag : Digest.hmac (Text.utf8 "two") (Text.utf8 (signedPart (.issue user now 120))) ≠
      Digest.hmac (Text.utf8 "one") (Text.utf8 (signedPart (.issue user now 120))) := by
    decide +kernel
  have hlife := issued_token_holds_exactly_within_lifetime huser hnow hend "one"
  refine ⟨huser, hnow, hend, htag, (hlife (now - 1)).2.1 (by decide),
    (hlife now).1.2 (by decide), (hlife (now + 120)).1.2 (by decide),
    (hlife (now + 121)).2.2.1 (by decide), (hlife now).2.2.2 "two" htag⟩

end Reckoner.Token
