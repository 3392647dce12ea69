/-
Reckoner.Proofs.Number.Decimal — a magnitude is read back from its decimals.

What a decimal reads as depends on its value alone, so zeros at the end of the
mantissa may move into the exponent (`ofDecimal_mul_pow`). A quotient that equals a
magnitude is rounded to it (`nearest?_quanta`). Hence the exact expansion of a
magnitude reads as the magnitude, and so does its shortest decimal, whichever way it
was found (`readsAs_shortestDecimal`).

  1. Equal quotients
  2. The digits of a number
  3. Decimals of the same value
  4. Decimals of a magnitude
-/
import Reckoner.Number.Shortest

namespace Reckoner

/-! ## 1. Equal quotients -/

theorem divNearest_mul_right (num den : Nat) {c : Nat} (hc : 0 < c) :
    divNearest (num * c) (den * c) = divNearest num den := by
  have hsame : ∀ a b : Nat, a * c < b * c ↔ a < b := fun a b => Nat.mul_lt_mul_right hc
  unfold divNearest
  simp only [Nat.mul_div_mul_right _ _ hc, Nat.mul_mod_mul_right, ← Nat.mul_assoc, hsame]

namespace Magnitude

theorem nearest?_mul_right (num den : Nat) {c : Nat} (hc : 0 < c) :
    nearest? (num * c) (den * c) = nearest? num den := by
  unfold nearest?
  simp only [Nat.mul_div_mul_right _ _ hc, Nat.mul_right_comm den c, divNearest_mul_right _ _ hc]

/-- The scale of a magnitude is the one that its quanta are rounded to. -/
theorem log2_quanta (m : Magnitude) : Nat.log2 m.quanta - 52 = m.scale := by
  rcases Nat.eq_zero_or_pos m.scale with hscale | hscale
  · have hlt : Nat.log2 m.mantissa < 53 := by
      rcases Nat.eq_zero_or_pos m.mantissa with hzero | hpos
      · rw [hzero]
        decide
      · exact (Nat.log2_lt (Nat.ne_of_gt hpos)).2 m.canonical.1
    rw [quanta, hscale, Nat.pow_zero, Nat.mul_one]
    omega
  · have hfull : 2 ^ 52 ≤ m.mantissa := m.canonical.2.2.resolve_left (Nat.ne_of_gt hscale)
    have hlow : 2 ^ (52 + m.scale) ≤ m.quanta := by
      rw [quanta, Nat.pow_add]
      exact Nat.mul_le_mul_right _ hfull
    have hhigh : m.quanta < 2 ^ (53 + m.scale) := by
      rw [quanta, Nat.pow_add]
      exact Nat.mul_lt_mul_of_pos_right m.canonical.1 (Nat.two_pow_pos _)
    have hne : m.quanta ≠ 0 := Nat.ne_of_gt (Nat.lt_of_lt_of_le (Nat.two_pow_pos _) hlow)
    have hle := (Nat.le_log2 hne).2 hlow
    have hlt := (Nat.log2_lt hne).2 hhigh
    omega

/-- A quotient that equals a magnitude is rounded to it. -/
theorem nearest?_quanta (m : Magnitude) {den : Nat} (hden : 0 < den) :
    nearest? (m.quanta * den) den = some m := by
  have hmantissa : divNearest (m.quanta * den) (den * 2 ^ m.scale) = m.mantissa := by
    rw [quanta, Nat.mul_assoc, Nat.mul_comm (2 ^ m.scale)]
    exact divNearest_mul _ (Nat.mul_pos hden (Nat.two_pow_pos _))
  unfold nearest?
  simp only [Nat.mul_div_cancel _ hden, log2_quanta, hmantissa]
  rw [if_neg (Nat.ne_of_lt m.canonical.1), ofCanonical?_self]

end Magnitude

namespace Number

theorem ofQuanta_mul_right (negative : Bool) (num den : Nat) {c : Nat} (hc : 0 < c) :
    ofQuanta negative (num * c) (den * c) = ofQuanta negative num den := by
  unfold ofQuanta
  rw [Magnitude.nearest?_mul_right _ _ hc]

theorem ofRatio_mul_right (negative : Bool) (num den : Nat) {c : Nat} (hc : 0 < c) :
    ofRatio negative (num * c) (den * c) = ofRatio negative num den :=
  (congrArg (ofQuanta negative · (den * c)) (Nat.mul_right_comm num c _)).trans
    (ofQuanta_mul_right negative _ den hc)

/-! ## 2. The digits of a number -/

theorem naturalChars_mul_ten {n : Nat} (hn : n ≠ 0) :
    Text.naturalChars (n * 10) = Text.naturalChars n ++ ['0'] := by
  rw [Nat.mul_comm]
  exact Text.naturalChars_ten_mul_add (d := 0) (Nat.pos_of_ne_zero hn) (by decide)

/-- A power of ten adds zeros behind the digits of a number. -/
theorem naturalChars_mul_pow {n : Nat} (hn : n ≠ 0) (k : Nat) :
    Text.naturalChars (n * 10 ^ k) = Text.naturalChars n ++ List.replicate k '0' := by
  induction k with
  | zero => simp
  | succ k ih =>
    have hne : n * 10 ^ k ≠ 0 := Nat.mul_ne_zero hn (Nat.ne_of_gt (Nat.pow_pos (by decide)))
    rw [Nat.pow_succ, ← Nat.mul_assoc, naturalChars_mul_ten hne, ih, List.append_assoc,
      ← List.replicate_succ']

/-- A number other than zero does not begin with a zero. -/
theorem head?_naturalChars {n : Nat} (hn : n ≠ 0) : (Text.naturalChars n).head? ≠ some '0' := by
  induction n using Nat.strongRecOn with
  | ind n ih =>
    rw [Text.naturalChars, Nat.toDigits_eq_if (by decide)]
    split
    · simp [hn]
    · next hlarge =>
      obtain ⟨c, cs, hhead, -⟩ := Text.naturalChars_head (n / 10)
      have hrest := ih (n / 10) (by omega) (by omega)
      rw [Text.naturalChars] at hhead hrest
      rw [hhead] at hrest ⊢
      exact hrest

theorem ofDigitChars_naturalChars (n : Nat) : Nat.ofDigitChars 10 (Text.naturalChars n) 0 = n :=
  Nat.ofDigitChars_ten_toDigits

/-! ## 3. Decimals of the same value -/

/-- Zeros at the end of a mantissa may as well be counted by the exponent. -/
theorem ofDecimal_mul_pow (negative : Bool) (mantissa k : Nat) (exponent : Int) :
    ofDecimal negative (mantissa * 10 ^ k) exponent =
      ofDecimal negative mantissa (exponent + k) := by
  rcases Nat.eq_zero_or_pos mantissa with rfl | hpos
  · rw [Nat.zero_mul, ofDecimal, ofDecimal, if_pos rfl, if_pos rfl]
  · have hne := Nat.ne_of_gt hpos
    have hpow : ∀ n : Nat, 0 < 10 ^ n := fun n => Nat.pow_pos (by decide)
    have hlength : (Nat.toDigits 10 (mantissa * 10 ^ k)).length =
        (Nat.toDigits 10 mantissa).length + k := by
      have hdigits := congrArg List.length (naturalChars_mul_pow hne k)
      rw [List.length_append, List.length_replicate] at hdigits
      exact hdigits
    have hshift : ((Nat.toDigits 10 mantissa).length + k : Nat) + exponent =
        ((Nat.toDigits 10 mantissa).length : Int) + (exponent + k) := by omega
    rw [ofDecimal, ofDecimal, if_neg (Nat.mul_ne_zero hne (Nat.ne_of_gt (hpow k))), if_neg hne]
    simp only [hlength, hshift]
    congr 2
    -- Either exponent may be negative, and the first is the smaller one.
    by_cases hlow : 0 ≤ exponent
    · have hsum : (exponent + k).toNat = k + exponent.toNat := by omega
      rw [if_pos hlow, if_pos (by omega), hsum, Nat.pow_add, Nat.mul_assoc]
    · rw [if_neg hlow]
      by_cases hhigh : 0 ≤ exponent + k
      · have hsum : 10 ^ k = 10 ^ (exponent + k).toNat * 10 ^ exponent.natAbs := by
          rw [← Nat.pow_add]
          congr 1
          omega
        have hone := ofRatio_mul_right negative (mantissa * 10 ^ (exponent + k).toNat) 1
          (hpow exponent.natAbs)
        rw [if_pos hhigh, hsum, ← Nat.mul_assoc, ← hone, Nat.one_mul]
      · have hsum : exponent.natAbs = (exponent + k).natAbs + k := by omega
        rw [if_neg hhigh, hsum, Nat.pow_add, ofRatio_mul_right _ _ _ (hpow k)]

theorem ofDecimal_zero (negative : Bool) (exponent : Int) :
    ofDecimal negative 0 exponent = .finite negative .zero := if_pos rfl

/-- The sign of a decimal is that of the number. -/
theorem ofDecimal_negative {mantissa : Nat} {exponent : Int} {m : Magnitude}
    (h : ofDecimal false mantissa exponent = .finite false m) (negative : Bool) :
    ofDecimal negative mantissa exponent = .finite negative m := by
  have hquanta : ∀ num den, ofQuanta false num den = .finite false m →
      ofQuanta negative num den = .finite negative m := by
    intro num den hread
    unfold ofQuanta at hread ⊢
    split at hread
    · cases hread
      rfl
    · cases hread
  by_cases hzero : mantissa = 0
  · subst hzero
    rw [ofDecimal_zero] at h ⊢
    cases h
    rfl
  · rw [ofDecimal, if_neg hzero] at h ⊢
    dsimp only at h ⊢
    by_cases hlarge : 310 < ((Nat.toDigits 10 mantissa).length : Int) + exponent
    · rw [if_pos hlarge] at h
      cases h
    · rw [if_neg hlarge] at h ⊢
      by_cases hsmall : ((Nat.toDigits 10 mantissa).length : Int) + exponent < -330
      · rw [if_pos hsmall] at h ⊢
        cases h
        rfl
      · rw [if_neg hsmall] at h ⊢
        by_cases hwhole : 0 ≤ exponent
        · rw [if_pos hwhole] at h ⊢
          exact hquanta _ _ h
        · rw [if_neg hwhole] at h ⊢
          exact hquanta _ _ h

/-! ## 4. Decimals of a magnitude -/

theorem ofQuanta_of_nearest? {num den : Nat} {m : Magnitude}
    (h : Magnitude.nearest? num den = some m) (negative : Bool) :
    ofQuanta negative num den = .finite negative m := by
  unfold ofQuanta
  rw [h]

theorem ofQuanta_quanta (negative : Bool) (m : Magnitude) {den : Nat} (hden : 0 < den) :
    ofQuanta negative (m.quanta * den) den = .finite negative m :=
  ofQuanta_of_nearest? (m.nearest?_quanta hden) negative

/-- Powers of two and of five make up powers of ten. -/
theorem ofQuanta_exact (m : Magnitude) (n : Nat) :
    ofQuanta false (m.quanta * 5 ^ n * 2 ^ n) (10 ^ n) = .finite false m := by
  rw [Nat.mul_assoc, ← Nat.mul_pow]
  exact ofQuanta_quanta false m (Nat.pow_pos (by decide))

theorem quanta_lt (m : Magnitude) (scale : Nat) (h : m.scale ≤ scale) :
    m.quanta < 2 ^ 53 * 2 ^ scale :=
  Nat.mul_lt_mul_of_lt_of_le m.canonical.1 (Nat.pow_le_pow_right (by decide) h)
    (Nat.two_pow_pos _)

/-- The exact expansion of a magnitude has neither too many digits nor too few. -/
theorem length_exactDecimal {m : Magnitude} (hm : m.quanta ≠ 0) :
    744 ≤ (Nat.toDigits 10 (exactDecimal m).mantissa).length ∧
      (Nat.toDigits 10 (exactDecimal m).mantissa).length ≤ 1384 := by
  have hlow : ¬ (exactDecimal m).mantissa < 10 ^ 743 := by
    have hpow : 10 ^ 743 ≤ 5 ^ 1074 := by decide +kernel
    have hle : 5 ^ 1074 ≤ m.quanta * 5 ^ 1074 := Nat.le_mul_of_pos_left _ (Nat.pos_of_ne_zero hm)
    exact Nat.not_lt.2 (Nat.le_trans hpow hle)
  have hhigh : (exactDecimal m).mantissa < 10 ^ 1384 := by
    have hpow : 2 ^ 53 * 2 ^ 2045 * 5 ^ 1074 ≤ 10 ^ 1384 := by decide +kernel
    have hfive : ∀ n : Nat, 0 < 5 ^ n := fun n => Nat.pow_pos (by decide)
    have hlt := Nat.mul_lt_mul_of_pos_right (quanta_lt m 2045 m.canonical.2.1) (hfive 1074)
    exact Nat.lt_of_lt_of_le hlt hpow
  have hdigits : ∀ k, 0 < k → ((Nat.toDigits 10 (exactDecimal m).mantissa).length ≤ k ↔
      (exactDecimal m).mantissa < 10 ^ k) :=
    fun k hk => Nat.length_toDigits_le_iff (by decide) hk
  refine ⟨?_, (hdigits 1384 (by decide)).2 hhigh⟩
  exact Nat.lt_of_not_le fun hle => hlow ((hdigits 743 (by decide)).1 hle)

theorem readsAs_exactDecimal {m : Magnitude} (hm : m.quanta ≠ 0) :
    (exactDecimal m).readsAs m = true := by
  obtain ⟨hlow, hhigh⟩ := length_exactDecimal hm
  have hne : (exactDecimal m).mantissa ≠ 0 := by
    intro hzero
    rw [hzero] at hlow
    exact absurd hlow (by decide)
  have hexact : ofRatio false (exactDecimal m).mantissa (10 ^ 1074) = .finite false m :=
    ofQuanta_exact m 1074
  have hread : ofDecimal false (exactDecimal m).mantissa (exactDecimal m).exponent =
      ofRatio false (exactDecimal m).mantissa (10 ^ 1074) := by
    have hexponent : (exactDecimal m).exponent = -1074 := rfl
    have hnatAbs : (-1074 : Int).natAbs = 1074 := rfl
    rw [ofDecimal, if_neg hne, hexponent, hnatAbs]
    dsimp only
    rw [if_neg (by omega), if_neg (by omega), if_neg (by decide)]
  rw [Decimal.readsAs, hread, hexact, beq_self_eq_true]

theorem readsAs_shortestDecimal {m : Magnitude} (hm : m.quanta ≠ 0) :
    (shortestDecimal m).readsAs m = true := by
  unfold shortestDecimal
  dsimp only
  cases hfound : List.findSome? _ (List.range 17) with
  | none => exact readsAs_exactDecimal hm
  | some d =>
    obtain ⟨k, -, hk⟩ := List.exists_of_findSome?_eq_some hfound
    have hreads := List.find?_some hk
    exact hreads

/-- The shortest decimal of a magnitude is the magnitude, with either sign. -/
theorem ofDecimal_shortestDecimal {m : Magnitude} (hm : m.quanta ≠ 0) (negative : Bool) :
    ofDecimal negative (shortestDecimal m).mantissa (shortestDecimal m).exponent =
      .finite negative m :=
  ofDecimal_negative (eq_of_beq (readsAs_shortestDecimal hm)) negative

theorem mantissa_shortestDecimal_ne_zero {m : Magnitude} (hm : m.quanta ≠ 0) :
    (shortestDecimal m).mantissa ≠ 0 := by
  intro hzero
  have hread := ofDecimal_shortestDecimal hm false
  rw [hzero, ofDecimal_zero] at hread
  cases hread
  exact hm rfl

end Number

end Reckoner
