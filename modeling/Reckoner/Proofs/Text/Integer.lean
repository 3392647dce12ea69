/-
Reckoner.Proofs.Text.Integer — the spellings of a whole number.

A whole number has many texts: it may stand behind a sign, and any number of zeros may
stand in front of its digits (`Spelling`). A number that fits its word is read from
these texts, however long they are, and from no others (`signed64?_eq_some_iff`). It is
written in just one of them: with no plus sign, no zeros in front, and no minus sign in
front of zero (`integerChars_value_eq_iff`).

  1. Digits behind zeros
  2. Digits behind a sign
  3. Spellings
-/
import Reckoner.Text.Integer

namespace Reckoner.Text

/-! ## 1. Digits behind zeros -/

theorem exists_digitChar {c : Char} (h : c.isDigit = true) : ∃ d < 10, c = Nat.digitChar d := by
  obtain ⟨hlow, hhigh⟩ := Char.isDigit_iff_toNat.1 h
  have hzero : '0'.toNat = 48 := rfl
  have hnine : '9'.toNat = 57 := rfl
  have hd : c.toNat - 48 < 10 := by omega
  refine ⟨c.toNat - 48, hd, Char.toNat_inj.1 ?_⟩
  rw [Nat.toNat_digitChar_of_lt_ten hd]
  omega

/-- Digits that are read behind a number other than zero are written behind it again. -/
theorem naturalChars_ofDigitChars {n : Nat} (hn : 0 < n) {ds : List Char}
    (hds : ∀ c ∈ ds, c.isDigit = true) :
    naturalChars (Nat.ofDigitChars 10 ds n) = naturalChars n ++ ds := by
  induction ds generalizing n with
  | nil => rw [Nat.ofDigitChars_nil, List.append_nil]
  | cons c cs ih =>
    obtain ⟨d, hd, rfl⟩ := exists_digitChar (hds c List.mem_cons_self)
    have hpos : 0 < 10 * n + d := by omega
    have hcs : ∀ c ∈ cs, c.isDigit = true := fun c hc => hds c (List.mem_cons_of_mem _ hc)
    rw [Nat.ofDigitChars_cons_digitChar_of_lt_ten hd, ih hpos hcs, naturalChars_ten_mul_add hn hd,
      List.append_assoc, List.singleton_append]

/-- Digits are some zeros and then the digits of their value. -/
theorem exists_leading_zeros {ds : List Char} (hne : ds ≠ []) (hds : ∀ c ∈ ds, c.isDigit = true) :
    ∃ k, ds = List.replicate k '0' ++ naturalChars (Nat.ofDigitChars 10 ds 0) := by
  induction ds with
  | nil => exact absurd rfl hne
  | cons c cs ih =>
    have hcs : ∀ c ∈ cs, c.isDigit = true := fun c hc => hds c (List.mem_cons_of_mem _ hc)
    obtain ⟨d, hd, rfl⟩ := exists_digitChar (hds c List.mem_cons_self)
    rw [Nat.ofDigitChars_cons_digitChar_of_lt_ten hd, Nat.mul_zero, Nat.zero_add]
    rcases Nat.eq_zero_or_pos d with rfl | hpos
    · -- A zero stands in front, unless it is the last digit: then it is the number.
      by_cases hlast : cs = []
      · subst hlast
        exact ⟨0, rfl⟩
      · obtain ⟨k, hk⟩ := ih hlast hcs
        exact ⟨k + 1, congrArg ('0' :: ·) hk⟩
    · have hdigit : naturalChars d = [Nat.digitChar d] := Nat.toDigits_of_lt_base hd
      refine ⟨0, ?_⟩
      rw [naturalChars_ofDigitChars hpos hcs, hdigit]
      rfl

theorem digitRun?_eq_some_iff_zeros {ds : List Char} {n : Nat} :
    digitRun? ds = some n ↔ ∃ k, ds = List.replicate k '0' ++ naturalChars n := by
  constructor
  · intro h
    obtain ⟨hne, hdigits, rfl⟩ := digitRun?_eq_some_iff.1 h
    exact exists_leading_zeros hne hdigits
  · rintro ⟨k, rfl⟩
    obtain ⟨hne, hdigits, hvalue⟩ := digitRun?_eq_some_iff.1 (digitRun?_naturalChars n)
    refine digitRun?_eq_some_iff.2 ⟨List.append_ne_nil_of_right_ne_nil _ hne, fun c hc => ?_, ?_⟩
    · rcases List.mem_append.1 hc with hzero | hdigit
      · rw [List.eq_of_mem_replicate hzero]
        decide
      · exact hdigits c hdigit
    · rw [Nat.ofDigitChars_append, Nat.ofDigitChars_replicate_zero, Nat.mul_zero]
      exact hvalue

/-! ## 2. Digits behind a sign -/

/-- What may stand in front of the digits of a whole number. -/
inductive Sign where
  | absent
  | plus
  | minus
deriving DecidableEq

namespace Sign

def chars : Sign → List Char
  | absent => []
  | plus => ['+']
  | minus => ['-']

/-- The number of this sign and size. -/
def applyTo : Sign → Nat → Int
  | absent, size => size
  | plus, size => size
  | minus, size => -size

end Sign

/-- A whole number is read from a sign and a digit run, and from nothing else. -/
theorem wholeNumber?_eq_some_iff {cs : List Char} {n : Int} :
    wholeNumber? cs = some n ↔ ∃ (sign : Sign) (ds : List Char) (size : Nat),
      cs = sign.chars ++ ds ∧ digitRun? ds = some size ∧ n = sign.applyTo size := by
  constructor
  · intro h
    unfold wholeNumber? at h
    split at h
    · next ds =>
      cases hrun : digitRun? ds with
      | none => simp [hrun] at h
      | some size =>
        rw [hrun] at h
        exact ⟨.minus, ds, size, rfl, hrun, (Option.some.inj h).symm⟩
    · next ds =>
      obtain ⟨size, hrun, rfl⟩ := Option.map_eq_some_iff.1 h
      exact ⟨.plus, ds, size, rfl, hrun, rfl⟩
    · obtain ⟨size, hrun, rfl⟩ := Option.map_eq_some_iff.1 h
      exact ⟨.absent, cs, size, rfl, hrun, rfl⟩
  · rintro ⟨sign, ds, size, rfl, hrun, rfl⟩
    cases sign with
    | absent => exact wholeNumber?_of_digitRun? hrun
    | plus =>
      rw [Sign.chars, List.singleton_append, wholeNumber?, hrun]
      rfl
    | minus =>
      rw [Sign.chars, List.singleton_append, wholeNumber?, hrun]
      rfl

/-- Only a minus sign is ever written, and not in front of zero. -/
theorem integerChars_applyTo (sign : Sign) (size : Nat) :
    integerChars (sign.applyTo size) =
      (if sign = .minus ∧ size ≠ 0 then ['-'] else []) ++ naturalChars size := by
  cases sign with
  | absent => rfl
  | plus => rfl
  | minus =>
    cases size with
    | zero => rfl
    | succ n => rfl

/-! ## 3. Spellings -/

/-- A text of a whole number: its sign or none, some zeros, and the digits of its size. -/
structure Spelling where
  sign : Sign
  zeros : Nat
  size : Nat
deriving DecidableEq

namespace Spelling

def chars (p : Spelling) : List Char :=
  p.sign.chars ++ (List.replicate p.zeros '0' ++ naturalChars p.size)

def text (p : Spelling) : String := String.ofList p.chars

/-- The number that is spelled. -/
def value (p : Spelling) : Int := p.sign.applyTo p.size

/-- The spelling has a plus sign, or zeros in front, or is of zero with a minus sign. -/
def IsLoose (p : Spelling) : Prop :=
  p.sign = .plus ∨ 0 < p.zeros ∨ (p.sign = .minus ∧ p.size = 0)

instance (p : Spelling) : Decidable p.IsLoose :=
  inferInstanceAs (Decidable (_ ∨ _ ∨ (_ ∧ _)))

end Spelling

/-- A number that fits its word is read from its spellings, and nothing is read from any
other text. -/
theorem signed64?_eq_some_iff {s : String} {n : Int} :
    signed64? s = some n ↔ fitsSigned64 n = true ∧ ∃ p : Spelling, s = p.text ∧ n = p.value := by
  rw [signed64?, signed64Chars?, Option.filter_eq_some_iff, and_comm, wholeNumber?_eq_some_iff]
  refine and_congr_right fun _ => ?_
  constructor
  · rintro ⟨sign, ds, size, hchars, hrun, rfl⟩
    obtain ⟨zeros, rfl⟩ := digitRun?_eq_some_iff_zeros.1 hrun
    refine ⟨⟨sign, zeros, size⟩, String.toList_inj.1 ?_, rfl⟩
    rw [hchars, Spelling.text, String.toList_ofList, Spelling.chars]
  · rintro ⟨p, rfl, rfl⟩
    refine ⟨p.sign, _, p.size, ?_, digitRun?_eq_some_iff_zeros.2 ⟨p.zeros, rfl⟩, rfl⟩
    rw [Spelling.text, String.toList_ofList, Spelling.chars]

/-- Of the spellings of a number, the one that is not loose is written. -/
theorem integerChars_value_eq_iff (p : Spelling) :
    integerChars p.value = p.chars ↔ ¬ p.IsLoose := by
  obtain ⟨sign, zeros, size⟩ := p
  -- The digits are the same on both sides, so that what stands in front of them decides.
  rw [Spelling.value, integerChars_applyTo, Spelling.chars, ← List.append_assoc,
    List.append_left_inj, Spelling.IsLoose]
  cases sign with
  | absent => simp [Sign.chars, @eq_comm _ []]
  | plus => simp [Sign.chars]
  | minus => by_cases hsize : size = 0 <;> simp [Sign.chars, hsize]

end Reckoner.Text
