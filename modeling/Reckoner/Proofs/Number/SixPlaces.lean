/-
Reckoner.Proofs.Number.SixPlaces — reading a text with six places changes nothing more.

Below 2 ^ 33 magnitudes are less than a millionth apart, so a count of millionths is
found again from the magnitude that its text reads as. From 2 ^ 33 on they are more than
a millionth apart, so the text reads as the magnitude itself; only at the foot of a
binade, where those below lie closer, is it because the magnitude is a whole number.
Either way the text of what was read is the text that was read
(`atSixPlaces_finite`).

  1. Steps of magnitudes and millionths
  2. The magnitude of a count of millionths
  3. Decimals with six places
-/
import Reckoner.Proofs.Number.Rounding
import Reckoner.Proofs.Number.Text

namespace Reckoner.Number

open Magnitude (nearest? scaleOf)

variable {m : Magnitude}

/-! ## 1. Steps of magnitudes and millionths -/

/-- How many quanta make one. -/
def quantaOfOne : Nat := 2 ^ 1074

theorem quantaOfOne_eq (j k : Nat) (h : j + k = 1074) : quantaOfOne = 2 ^ j * 2 ^ k := by
  rw [quantaOfOne, ← h, Nat.pow_add]

theorem quantaOfOne_pos : 0 < quantaOfOne := by decide +kernel

theorem millionths_eq (m : Magnitude) :
    millionths m = divNearest (m.quanta * 10 ^ 6) quantaOfOne := by
  rw [millionths, quantaOfOne]

theorem ofRatio_eq (negative : Bool) (num den : Nat) :
    ofRatio negative num den = ofQuanta negative (num * quantaOfOne) den := by
  rw [ofRatio, quantaOfOne]

/-- Rounding to millionths moves a magnitude half a millionth at most. -/
theorem millionths_le (m : Magnitude) :
    2 * (millionths m * quantaOfOne) ≤ 2 * (m.quanta * 10 ^ 6) + quantaOfOne := by
  rw [millionths_eq, ← Nat.mul_assoc]
  exact (divNearest_near _ quantaOfOne_pos).2

/-- In the scales up to this one a step is less than a millionth. -/
theorem step_lt_millionth {scale : Nat} (h : scale ≤ 1054) :
    10 ^ 6 * 2 ^ scale < quantaOfOne := by
  have hstep := Nat.pow_le_pow_right (n := 2) (by decide) h
  calc 10 ^ 6 * 2 ^ scale < 2 ^ 20 * 2 ^ scale :=
        Nat.mul_lt_mul_of_pos_right (by decide) (Nat.two_pow_pos _)
    _ ≤ 2 ^ 20 * 2 ^ 1054 := Nat.mul_le_mul_left _ hstep
    _ = quantaOfOne := (quantaOfOne_eq 20 1054 rfl).symm

/-- In all others it is more. -/
theorem millionth_lt_step {scale : Nat} (h : 1055 ≤ scale) :
    quantaOfOne < 10 ^ 6 * 2 ^ scale := by
  have hstep := Nat.pow_le_pow_right (n := 2) (by decide) h
  rw [quantaOfOne_eq 19 1055 rfl]
  calc 2 ^ 19 * 2 ^ 1055 ≤ 2 ^ 19 * 2 ^ scale := Nat.mul_le_mul_left _ hstep
    _ < 10 ^ 6 * 2 ^ scale := Nat.mul_lt_mul_of_pos_right (by decide) (Nat.two_pow_pos _)

/-- The magnitudes with steps of more than a millionth are those from 2 ^ 33 on. -/
theorem le_scale_of_le_quanta (h : 2 ^ 33 * quantaOfOne ≤ m.quanta) : 1055 ≤ m.scale := by
  refine Nat.lt_of_not_le fun hscale => Nat.not_lt.2 h ?_
  have hfirst : 2 ^ 53 * 2 ^ 1054 = 2 ^ 33 * quantaOfOne := by decide +kernel
  exact Nat.lt_of_lt_of_eq (quanta_lt m 1054 hscale) hfirst

/-! ## 2. The magnitude of a count of millionths -/

/-- Rounding to millionths does not lead out of the scales with small steps. -/
theorem scaleOf_millionths (h : m.scale ≤ 1054) :
    scaleOf (millionths m * quantaOfOne) (10 ^ 6) ≤ 1054 := by
  have hbound : ∀ n quanta one step : Nat, one = 2 ^ 20 * step → 0 < step →
      quanta ≤ (2 ^ 53 - 1) * step → 2 * n ≤ 2 * (quanta * 10 ^ 6) + one →
      n < 2 ^ 53 * step * 10 ^ 6 := by
    intro n quanta one step hone hpos hquanta hnear
    omega
  have hstep := Nat.pow_le_pow_right (n := 2) (by decide) h
  have hquanta := Nat.mul_le_mul (Nat.le_sub_one_of_lt m.canonical.1) hstep
  have hlt := hbound _ m.quanta quantaOfOne (2 ^ 1054) (quantaOfOne_eq 20 1054 rfl)
    (Nat.two_pow_pos 1054) hquanta (millionths_le m)
  exact Magnitude.scaleOf_le (by decide) hlt

/-- A count of millionths is rounded to a magnitude that has the same count, and to the
magnitude that it was taken from where steps are large. -/
theorem exists_nearest?_millionths (m : Magnitude) :
    ∃ m', nearest? (millionths m * quantaOfOne) (10 ^ 6) = some m' ∧
      millionths m' = millionths m ∧ (2 ^ 33 * quantaOfOne ≤ m.quanta → m' = m) := by
  rcases Nat.lt_or_ge 1054 m.scale with hlarge | hsmall
  · refine ⟨m, ?_, rfl, fun _ => rfl⟩
    rw [millionths_eq]
    rcases Nat.lt_or_eq_of_le (m.canonical.2.2.resolve_left (by omega)) with hinner | hfoot
    · exact Magnitude.nearest?_divNearest quantaOfOne_pos (millionth_lt_step hlarge) hinner
    · -- The least of its binade is a power of two, and a whole number.
      have hwhole : quantaOfOne ∣ m.quanta := by
        have hdvd := Nat.pow_dvd_pow 2 (m := 1074) (n := 52 + m.scale) (by omega)
        rwa [Nat.pow_add, hfoot, ← quantaOfOne] at hdvd
      exact Magnitude.nearest?_divNearest_of_dvd (by decide) quantaOfOne_pos hwhole
  · have hscale := scaleOf_millionths hsmall
    have hlast : scaleOf (millionths m * quantaOfOne) (10 ^ 6) < 2045 := by omega
    obtain ⟨m', hm', hcount⟩ :=
      Magnitude.divNearest_nearest? (by decide) hlast (step_lt_millionth hscale)
    refine ⟨m', hm', (millionths_eq m').trans hcount, fun hquanta => ?_⟩
    have hlarge := le_scale_of_le_quanta hquanta
    omega

/-! ## 3. Decimals with six places -/

/-- No count of millionths has too many digits. -/
theorem length_millionths (m : Magnitude) :
    (Nat.toDigits 10 (millionths m)).length ≤ 316 := by
  refine (Nat.length_toDigits_le_iff (by decide) (by decide)).2 ?_
  have hquanta := quanta_lt m 2045 m.canonical.2.1
  have hlarge : 2 * (2 ^ 53 * 2 ^ 2045 * 10 ^ 6) + quantaOfOne < 2 * (10 ^ 316 * quantaOfOne) := by
    decide +kernel
  have hnear := millionths_le m
  refine Nat.lt_of_mul_lt_mul_right (a := quantaOfOne) ?_
  have hmono := Nat.mul_lt_mul_of_pos_right hquanta (k := 10 ^ 6) (by decide)
  omega

theorem ofDecimal_millionths (negative : Bool) (m : Magnitude) :
    ofDecimal negative (millionths m) (-6) =
      ofQuanta negative (millionths m * quantaOfOne) (10 ^ 6) := by
  have hlength := length_millionths m
  by_cases hzero : millionths m = 0
  · have hmillion : 0 < 10 ^ 6 := by decide
    have hratio := ofQuanta_quanta negative .zero hmillion
    rw [Magnitude.quanta_zero, Nat.zero_mul] at hratio
    rw [hzero, ofDecimal_zero, Nat.zero_mul, hratio]
  · rw [ofDecimal, if_neg hzero, ← ofRatio_eq]
    dsimp only
    rw [if_neg (by omega), if_neg (by omega), if_neg (by decide)]
    rfl

/-- The text of a finite number reads as a finite number of the same sign with the same
text, and as the number itself from 2 ^ 33 on. -/
theorem atSixPlaces_finite (negative : Bool) (m : Magnitude) :
    ∃ m', atSixPlaces (.finite negative m) = .finite negative m' ∧
      millionths m' = millionths m ∧ (2 ^ 33 * quantaOfOne ≤ m.quanta → m' = m) := by
  obtain ⟨m', hm', hcount⟩ := exists_nearest?_millionths m
  refine ⟨m', ?_, hcount⟩
  rw [atSixPlaces, ofDecimal_millionths, ofQuanta_of_nearest? hm']

/-- A number has the text of the number that its text reads as. -/
theorem sixPlaces_atSixPlaces (x : Number) : x.atSixPlaces.sixPlaces = x.sixPlaces := by
  cases x with
  | nan => rfl
  | infinite negative => rfl
  | finite negative m =>
    obtain ⟨m', hm', hcount, -⟩ := atSixPlaces_finite negative m
    rw [hm', sixPlaces, sixPlaces]
    cases negative <;> simp only [sixPlacesChars, hcount]

end Reckoner.Number
