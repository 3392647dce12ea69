/-
Reckoner.Proofs.Json.Length — how long the text of a report is.

A magnitude has a decimal of at most 1384 digits whose exponent has at most four
(`short_shortestDecimal`), so however it is laid out a number takes no more than 1400
characters. A whole number that fits a word takes at most 20, and no character of a
string becomes more than six. The text of a report is therefore longer than 6000 bytes
only if it brings a long error (`Report.length_render_le`).

  1. Digits
  2. The decimals of a magnitude
  3. Numbers
  4. Strings and objects
  5. Reports
-/
import Reckoner.Json.Writer
import Reckoner.Proofs.Number.Decimal
import Reckoner.Task.Codec

namespace Reckoner

/-! ## 1. Digits -/

namespace Text

theorem length_naturalChars_le {n k : Nat} (hk : 0 < k) (h : n < 10 ^ k) :
    (naturalChars n).length ≤ k :=
  (Nat.length_toDigits_le_iff (by decide) hk).2 h

/-- A sign may stand before the digits. -/
theorem length_integerChars_le {n : Int} {k : Nat} (hk : 0 < k) (h : n.natAbs < 10 ^ k) :
    (integerChars n).length ≤ k + 1 := by
  cases n with
  | ofNat n => exact Nat.le_succ_of_le (length_naturalChars_le hk h)
  | negSucc n => exact Nat.succ_le_succ (length_naturalChars_le hk h)

/-- A character has at most four bytes. -/
theorem length_utf8_ofList_le (cs : List Char) :
    (utf8 (String.ofList cs)).length ≤ 4 * cs.length := by
  induction cs with
  | nil => exact Nat.le_refl 0
  | cons c cs ih =>
    have hhead : (utf8 (String.singleton c)).length ≤ 4 := by
      have hsize : (utf8 (String.singleton c)).length = c.utf8Size := by
        rw [utf8, Array.length_toList]
        exact String.utf8ByteSize_singleton
      rw [hsize]
      exact c.utf8Size_le_four
    rw [String.ofList_cons, utf8_append, List.length_append, List.length_cons]
    omega

end Text

/-! ## 2. The decimals of a magnitude -/

namespace Number

/-- The decimal has few digits, and so has its exponent. -/
structure Decimal.Short (d : Decimal) : Prop where
  mantissa : d.mantissa < 10 ^ 1384
  exponent : d.exponent.natAbs ≤ 1500

theorem quanta_lt_ten_pow (m : Magnitude) : m.quanta < 10 ^ 632 :=
  Nat.lt_of_lt_of_le (quanta_lt m 2045 m.canonical.2.1) (by decide +kernel)

theorem short_exactDecimal {m : Magnitude} (hm : m.quanta ≠ 0) : (exactDecimal m).Short where
  mantissa := by
    have hdigits := Nat.length_toDigits_le_iff (n := (exactDecimal m).mantissa) (k := 1384)
      (show 1 < 10 by decide) (by decide)
    exact hdigits.1 (length_exactDecimal hm).2
  exponent := by
    show (-1074 : Int).natAbs ≤ 1500
    decide

theorem mul_ten_pow_lt {a i j k : Nat} (ha : a < 10 ^ i) (hj : j ≤ k) :
    a * 10 ^ j < 10 ^ (i + k) := by
  rw [Nat.pow_add]
  exact Nat.mul_lt_mul_of_lt_of_le ha (Nat.pow_le_pow_right (by decide) hj)
    (Nat.pow_pos (by decide))

theorem pointOf_bounds (m : Magnitude) : -399 ≤ pointOf m ∧ pointOf m ≤ 632 := by
  have hlow : (Nat.toDigits 10 (m.quanta * 10 ^ 400 / 2 ^ 1074)).length ≠ 0 :=
    fun hzero => Text.naturalChars_ne_nil _ (List.length_eq_zero_iff.1 hzero)
  have hhigh : (Nat.toDigits 10 (m.quanta * 10 ^ 400 / 2 ^ 1074)).length ≤ 632 + 400 := by
    have hnum := mul_ten_pow_lt (quanta_lt_ten_pow m) (Nat.le_refl 400)
    exact Text.length_naturalChars_le (by decide) (Nat.lt_of_le_of_lt (Nat.div_le_self _ _) hnum)
  unfold pointOf
  omega

theorem short_of_mem_neighbours {m : Magnitude} {unit : Int} (hlow : -416 ≤ unit)
    (hhigh : unit ≤ 632) {d : Decimal} (hd : d ∈ neighbours m unit) : d.Short := by
  have hexponent : (-unit).toNat ≤ 416 := by omega
  have hnum := mul_ten_pow_lt (quanta_lt_ten_pow m) hexponent
  have hbelow := Nat.lt_of_le_of_lt (Nat.div_le_self _ (2 ^ 1074 * 10 ^ unit.toNat)) hnum
  have hnear := divNearest_le (m.quanta * 10 ^ (-unit).toNat) (2 ^ 1074 * 10 ^ unit.toNat)
  have hroom := Nat.pow_lt_pow_right (show 1 < 10 by decide) (show 632 + 416 < 1384 by decide)
  simp only [neighbours, List.mem_cons, List.not_mem_nil, or_false] at hd
  rcases hd with rfl | rfl
  · exact ⟨by dsimp only; omega, by dsimp only; omega⟩
  · refine ⟨?_, by dsimp only; omega⟩
    dsimp only
    split <;> omega

theorem short_shortestDecimal {m : Magnitude} (hm : m.quanta ≠ 0) : (shortestDecimal m).Short := by
  unfold shortestDecimal
  dsimp only
  cases hfound : List.findSome? _ (List.range 17) with
  | none => exact short_exactDecimal hm
  | some d =>
    obtain ⟨k, hk, hd⟩ := List.exists_of_findSome?_eq_some hfound
    have hrange := List.mem_range.1 hk
    have hpoint := pointOf_bounds m
    exact short_of_mem_neighbours (by omega) (by omega) (List.mem_of_find?_eq_some hd)

end Number

/-! ## 3. Numbers -/

namespace Json

theorem length_significantDigits_le (n : Nat) :
    (significantDigits n).length ≤ (Text.naturalChars n).length := by
  have hkept := (List.dropWhile_sublist (· == '0') (l := (Text.naturalChars n).reverse)).length_le
  rw [significantDigits, List.length_reverse]
  rwa [List.length_reverse] at hkept

theorem length_signedChars_le {n : Int} {k : Nat} (hk : 0 < k) (h : n.natAbs < 10 ^ k) :
    (signedChars n).length ≤ k + 2 := by
  have hdigits := Text.length_integerChars_le hk h
  rw [signedChars]
  split
  · exact Nat.succ_le_succ hdigits
  · exact Nat.le_succ_of_le hdigits

theorem length_decimalChars_le {d : Number.Decimal} (h : d.Short) :
    (decimalChars d).length ≤ 1400 := by
  have hmantissa := Text.length_naturalChars_le (by decide) h.mantissa
  have hdigits := length_significantDigits_le d.mantissa
  have hexponent := h.exponent
  have hsigned :
      (signedChars ((Text.naturalChars d.mantissa).length + d.exponent - 1)).length ≤ 6 :=
    length_signedChars_le (k := 4) (by decide) (by omega)
  unfold decimalChars
  dsimp only
  split
  · next hplaces =>
    obtain ⟨hleast, hgreatest⟩ := hplaces
    simp only [layout] at hleast hgreatest
    split
    · simp only [List.length_cons, List.length_append, List.length_replicate]
      omega
    · split
      · simp only [List.length_append, List.length_replicate, List.length_cons, List.length_nil]
        omega
      · simp only [List.length_append, List.length_cons, List.length_take, List.length_drop]
        omega
  · split
    · simp only [List.length_cons]
      omega
    · simp only [List.length_cons]
      omega
    · next c cs hcons =>
      rw [hcons] at hdigits
      simp only [List.length_cons, List.length_append] at hdigits ⊢
      omega

theorem length_magnitudeChars_le (m : Magnitude) : (magnitudeChars m).length ≤ 1400 := by
  rw [magnitudeChars]
  split
  · decide
  · next hmantissa =>
    refine length_decimalChars_le (Number.short_shortestDecimal fun hzero => ?_)
    exact (Nat.mul_eq_zero.1 hzero).elim hmantissa (Nat.ne_of_gt (Nat.two_pow_pos _))

theorem length_numberChars_le (x : Number) : (numberChars x).length ≤ 1401 := by
  cases x with
  | nan => decide
  | infinite negative => cases negative <;> decide
  | finite negative m =>
    have hm := length_magnitudeChars_le m
    cases negative with
    | false => exact Nat.le_succ_of_le hm
    | true => exact Nat.succ_le_succ hm

theorem length_chars_ofNumber_le (x : Number) : (ofNumber x).chars.length ≤ 1401 := by
  rw [ofNumber]
  split
  · exact length_numberChars_le x
  · decide

/-! ## 4. Strings and objects -/

theorem length_escapeChar_le (c : Char) : (escapeChar c).length ≤ 6 := by
  unfold escapeChar
  repeat' split
  all_goals simp

theorem length_stringChars_le (s : String) : (stringChars s).length ≤ 6 * s.length + 2 := by
  have hinside : ∀ cs : List Char, (cs.flatMap escapeChar).length ≤ 6 * cs.length := by
    intro cs
    induction cs with
    | nil => exact Nat.le_refl 0
    | cons c cs ih =>
      have hhead := length_escapeChar_le c
      rw [List.flatMap_cons, List.length_append, List.length_cons]
      omega
  have hs := hinside s.toList
  rw [String.length_toList] at hs
  simp only [stringChars, List.length_cons, List.length_append, List.length_nil]
  omega

/-- Room for the members and the end of an object: each takes its name, its value, and two
characters around them. -/
def room : List (String × Json) → Nat
  | [] => 1
  | (name, j) :: ms => (stringChars name).length + j.chars.length + 2 + room ms

theorem length_chars_ofList_le (first : Bool) (ms : List (String × Json)) :
    ((Members.ofList ms).chars first).length ≤ room ms := by
  induction ms generalizing first with
  | nil => exact Nat.le_refl 1
  | cons m ms ih =>
    have hrest := ih false
    have hcomma : (if first then [] else [',']).length ≤ 1 := by cases first <;> decide
    simp only [Members.ofList, Members.chars, room, List.length_append, List.length_cons]
    omega

theorem length_chars_ofMembers_le (ms : List (String × Json)) :
    (ofMembers ms).chars.length ≤ room ms + 1 :=
  Nat.succ_le_succ (length_chars_ofList_le true ms)

end Json

/-! ## 5. Reports -/

/-- Only a long error makes the text of a report long. -/
theorem Report.length_render_le {r : Report} (hid : Text.fitsSigned64 r.id = true) {n : Nat}
    (herror : ∀ error, r.error = some error → error.length ≤ n) :
    (Text.utf8 r.toJson.render).length ≤ 6000 + 24 * n := by
  have hword : (Json.integer r.id).chars.length ≤ 20 := by
    have hfits := of_decide_eq_true hid
    exact Text.length_integerChars_le (k := 19) (by decide) (by omega)
  have hnumber := Json.length_chars_ofNumber_le r.result
  have hnames : (Json.stringChars "id").length = 4 ∧ (Json.stringChars "result").length = 8 ∧
      (Json.stringChars "error").length = 7 := by decide
  have hbytes : (Text.utf8 r.toJson.render).length ≤ 4 * r.toJson.chars.length :=
    Text.length_utf8_ofList_le _
  have hlast : Json.room (Json.optionalMember "error" .text r.error) ≤ 12 + 6 * n := by
    cases herr : r.error with
    | none => exact Nat.le_add_right_of_le (by decide : 1 ≤ 12)
    | some error =>
      have hlength := herror error herr
      have hstring : (Json.text error).chars.length ≤ 6 * error.length + 2 :=
        Json.length_stringChars_le error
      simp only [Json.optionalMember, Json.room]
      omega
  have hchars : r.toJson.chars.length ≤ 1450 + 6 * n := by
    refine Nat.le_trans (Json.length_chars_ofMembers_le _) ?_
    simp only [List.cons_append, List.nil_append, Json.room]
    omega
  omega

end Reckoner
