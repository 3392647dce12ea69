/-
Reckoner.Proofs.Number.Rounding — how far rounding moves a number.

A quotient is rounded to a whole number half a unit away at most, and no other whole
number lies nearer than that (`divNearest_eq`). A quotient that is not too large is
rounded to a magnitude whose quanta are such a whole number of units of its binade
(`exists_nearest?`), and it is rounded to any magnitude that lies nearer than half of
that unit (`nearest?_eq_some`).

So two roundings one after the other, to magnitudes and to multiples of some unit,
undo each other where the one is finer than the other: a multiple of a unit that is
wider than the steps between magnitudes is found again from the magnitude next to it
(`divNearest_nearest?`), and a magnitude whose steps are wider than the unit is found
again from the multiple next to it (`nearest?_divNearest`).

  1. Whole numbers
  2. The unit of a quotient
  3. Magnitudes
  4. Two roundings
-/
import Reckoner.Proofs.Number.Decimal

namespace Reckoner

/-! ## 1. Whole numbers -/

/-- Half a unit is the most that rounding moves a quotient. -/
theorem divNearest_near (num : Nat) {den : Nat} (hden : 0 < den) :
    2 * num ≤ (2 * divNearest num den + 1) * den ∧
      2 * divNearest num den * den ≤ 2 * num + den := by
  have hsplit := Nat.div_add_mod num den
  have hrest := Nat.mod_lt num hden
  unfold divNearest
  generalize num / den = q at hsplit ⊢
  generalize num % den = r at hsplit hrest ⊢
  have hwhole : ∀ n : Nat, 2 * n * den = 2 * (den * n) := by
    intro n
    rw [Nat.mul_assoc, Nat.mul_comm n]
  have hnext : den * (q + 1) = den * q + den := Nat.mul_succ den q
  have heven : ∀ n : Nat, (2 * n + 1) * den = 2 * (den * n) + den := by
    intro n
    rw [Nat.add_mul, hwhole, Nat.one_mul]
  dsimp only
  split
  · rw [hwhole, heven]
    omega
  · split
    · rw [hwhole, heven, hnext]
      omega
    · -- A tie: the quotient is as far from both neighbours.
      have htie : den = 2 * r := by omega
      rcases Nat.mod_two_eq_zero_or_one q with hq | hq
      · rw [hq, Nat.add_zero q, hwhole, heven]
        omega
      · rw [hq, hwhole, heven, hnext]
        omega

/-- A whole number nearer than half a unit is the one that a quotient is rounded to. -/
theorem divNearest_eq {num den n : Nat} (hlow : 2 * num < (2 * n + 1) * den)
    (hhigh : 2 * n * den < 2 * num + den) : divNearest num den = n := by
  have hden : 0 < den := by
    rcases Nat.eq_zero_or_pos den with rfl | hpos
    · omega
    · exact hpos
  obtain ⟨habove, hbelow⟩ := divNearest_near num hden
  generalize divNearest num den = d at habove hbelow
  have hle : 2 * d < 2 * n + 2 := by
    refine Nat.lt_of_mul_lt_mul_right (a := den) ?_
    rw [Nat.add_mul] at hlow ⊢
    omega
  have hge : 2 * n < 2 * d + 2 := by
    refine Nat.lt_of_mul_lt_mul_right (a := den) ?_
    rw [Nat.add_mul] at habove ⊢
    omega
  omega

namespace Magnitude

/-! ## 2. The unit of a quotient -/

/-- The scale that a quotient is rounded in. -/
def scaleOf (num den : Nat) : Nat := Nat.log2 (num / den) - 52

theorem scaleOf_le {num den scale : Nat} (hden : 0 < den) (h : num < 2 ^ 53 * 2 ^ scale * den) :
    scaleOf num den ≤ scale := by
  have hquotient : num / den < 2 ^ (53 + scale) := by
    rw [Nat.pow_add]
    exact (Nat.div_lt_iff_lt_mul hden).2 h
  unfold scaleOf
  by_cases hzero : num / den = 0
  · rw [hzero]
    simp
  · have hlog := (Nat.log2_lt hzero).2 hquotient
    omega

theorem le_scaleOf {num den scale : Nat} (hden : 0 < den) (h : 2 ^ 52 * 2 ^ scale * den ≤ num) :
    scale ≤ scaleOf num den := by
  have hquotient : 2 ^ (52 + scale) ≤ num / den := by
    rw [Nat.pow_add]
    exact (Nat.le_div_iff_mul_le hden).2 h
  have hne : num / den ≠ 0 := Nat.ne_of_gt (Nat.lt_of_lt_of_le (Nat.two_pow_pos _) hquotient)
  have hlog := (Nat.le_log2 hne).2 hquotient
  unfold scaleOf
  omega

/-- In its scale a quotient takes no more than 53 bits. -/
theorem divNearest_scaleOf_le (num den : Nat) :
    divNearest num (den * 2 ^ scaleOf num den) ≤ 2 ^ 53 := by
  have hquotient : num / den < 2 ^ 53 * 2 ^ scaleOf num den := by
    rw [← Nat.pow_add]
    refine Nat.lt_of_lt_of_le Nat.lt_log2_self (Nat.pow_le_pow_right (by decide) ?_)
    unfold scaleOf
    omega
  have hwhole : num / (den * 2 ^ scaleOf num den) < 2 ^ 53 := by
    rw [← Nat.div_div_eq_div_mul]
    exact (Nat.div_lt_iff_lt_mul (Nat.two_pow_pos _)).2 hquotient
  exact Nat.le_trans (divNearest_le _ _) hwhole

/-- Above the least scale it takes all of them. -/
theorem le_divNearest_scaleOf {num den : Nat} (h : scaleOf num den ≠ 0) :
    2 ^ 52 ≤ divNearest num (den * 2 ^ scaleOf num den) := by
  have hlog : Nat.log2 (num / den) = 52 + scaleOf num den := by
    unfold scaleOf at h ⊢
    omega
  have hne : num / den ≠ 0 := by
    intro hzero
    rw [hzero, Nat.log2_zero] at hlog
    omega
  have hquotient : 2 ^ 52 * 2 ^ scaleOf num den ≤ num / den := by
    rw [← Nat.pow_add, ← hlog]
    exact Nat.log2_self_le hne
  have hwhole : 2 ^ 52 ≤ num / (den * 2 ^ scaleOf num den) := by
    rw [← Nat.div_div_eq_div_mul]
    exact (Nat.le_div_iff_mul_le (Nat.two_pow_pos _)).2 hquotient
  exact Nat.le_trans hwhole (le_divNearest _ _)

/-! ## 3. Magnitudes -/

theorem nearest?_eq (num den : Nat) :
    nearest? num den =
      if divNearest num (den * 2 ^ scaleOf num den) = 2 ^ 53 then
        ofCanonical? (2 ^ 52) (scaleOf num den + 1)
      else ofCanonical? (divNearest num (den * 2 ^ scaleOf num den)) (scaleOf num den) := rfl

/-- A quotient whose scale is not the last one is rounded to a whole number of units. -/
theorem exists_nearest? {num den : Nat} (h : scaleOf num den < 2045) :
    ∃ m, nearest? num den = some m ∧
      m.quanta = divNearest num (den * 2 ^ scaleOf num den) * 2 ^ scaleOf num den := by
  have hle := divNearest_scaleOf_le num den
  have hge := @le_divNearest_scaleOf num den
  rw [nearest?_eq]
  generalize scaleOf num den = scale at h hle hge ⊢
  generalize divNearest num (den * 2 ^ scale) = mantissa at hle hge ⊢
  by_cases hfull : mantissa = 2 ^ 53
  · -- The mantissa has run full: half of it in the next scale is the same.
    have hcanonical : 2 ^ 52 < 2 ^ 53 ∧ scale + 1 ≤ 2045 ∧ (scale + 1 = 0 ∨ 2 ^ 52 ≤ 2 ^ 52) :=
      ⟨by decide, h, .inr (Nat.le_refl _)⟩
    refine ⟨⟨2 ^ 52, scale + 1, hcanonical⟩, ?_, ?_⟩
    · rw [if_pos hfull, ofCanonical?, dif_pos hcanonical]
    · rw [quanta, hfull, Nat.pow_succ 2 scale, Nat.pow_succ 2 52, Nat.mul_assoc, Nat.mul_comm 2]
  · have hcanonical : mantissa < 2 ^ 53 ∧ scale ≤ 2045 ∧ (scale = 0 ∨ 2 ^ 52 ≤ mantissa) :=
      ⟨Nat.lt_of_le_of_ne hle hfull, Nat.le_of_lt h, Decidable.or_iff_not_imp_left.2 hge⟩
    refine ⟨⟨mantissa, scale, hcanonical⟩, ?_, rfl⟩
    rw [if_neg hfull, ofCanonical?, dif_pos hcanonical]

/-- A quotient in the binade of a magnitude, nearer to it than half a unit, is rounded to it. -/
theorem nearest?_eq_some {m : Magnitude} {num den : Nat}
    (hbinade : 2 ^ 52 * 2 ^ m.scale * den ≤ num)
    (hlow : 2 * num < (2 * m.mantissa + 1) * (den * 2 ^ m.scale))
    (hhigh : 2 * m.mantissa * (den * 2 ^ m.scale) < 2 * num + den * 2 ^ m.scale) :
    nearest? num den = some m := by
  have hunit : 0 < den * 2 ^ m.scale := by
    rcases Nat.eq_zero_or_pos (den * 2 ^ m.scale) with hzero | hpos
    · rw [hzero] at hlow
      omega
    · exact hpos
  have hden : 0 < den := Nat.pos_of_mul_pos_right hunit
  have hscale : scaleOf num den = m.scale := by
    refine Nat.le_antisymm (scaleOf_le hden ?_) (le_scaleOf hden hbinade)
    have hbits : (2 * m.mantissa + 1) * (den * 2 ^ m.scale) ≤
        2 * 2 ^ 53 * (den * 2 ^ m.scale) := by
      have hlt := m.canonical.1
      exact Nat.mul_le_mul_right _ (by omega)
    have hpower : 2 ^ 53 * 2 ^ m.scale * den = 2 ^ 53 * (den * 2 ^ m.scale) := by
      rw [Nat.mul_assoc, Nat.mul_comm den]
    rw [Nat.mul_assoc 2] at hbits
    omega
  have hmantissa : divNearest num (den * 2 ^ m.scale) = m.mantissa := divNearest_eq hlow hhigh
  rw [nearest?_eq, hscale, hmantissa, if_neg (Nat.ne_of_lt m.canonical.1), ofCanonical?_self]

/-! ## 4. Two roundings -/

variable {m : Magnitude} {n den unit : Nat}

/-- Where magnitudes are less than a unit apart, each multiple of the unit is the one next to
its nearest magnitude. -/
theorem divNearest_nearest? (hden : 0 < den) (hscale : scaleOf (n * unit) den < 2045)
    (hfine : den * 2 ^ scaleOf (n * unit) den < unit) :
    ∃ m, nearest? (n * unit) den = some m ∧ divNearest (m.quanta * den) unit = n := by
  obtain ⟨m, hm, hquanta⟩ := exists_nearest? hscale
  have hpos : 0 < den * 2 ^ scaleOf (n * unit) den := Nat.mul_pos hden (Nat.two_pow_pos _)
  obtain ⟨habove, hbelow⟩ := divNearest_near (n * unit) hpos
  have hvalue : 2 * divNearest (n * unit) (den * 2 ^ scaleOf (n * unit) den) *
      (den * 2 ^ scaleOf (n * unit) den) = 2 * (m.quanta * den) := by
    rw [hquanta, Nat.mul_assoc, Nat.mul_comm den, Nat.mul_assoc]
  rw [Nat.add_mul, hvalue, Nat.one_mul] at habove
  rw [hvalue] at hbelow
  refine ⟨m, hm, divNearest_eq ?_ ?_⟩
  · rw [Nat.add_mul, Nat.mul_assoc, Nat.one_mul]
    omega
  · rw [Nat.mul_assoc]
    omega

/-- Where magnitudes are more than a unit apart, each is the one next to its nearest multiple
of the unit. At the foot of a binade those below are nearer. -/
theorem nearest?_divNearest (hunit : 0 < unit) (hcoarse : unit < den * 2 ^ m.scale)
    (hinner : 2 ^ 52 < m.mantissa) :
    nearest? (divNearest (m.quanta * den) unit * unit) den = some m := by
  obtain ⟨habove, hbelow⟩ := divNearest_near (m.quanta * den) hunit
  have hquanta : 2 * m.mantissa * (den * 2 ^ m.scale) = 2 * (m.quanta * den) := by
    rw [quanta, Nat.mul_assoc, Nat.mul_comm den, Nat.mul_assoc]
  rw [Nat.add_mul, Nat.mul_assoc, Nat.one_mul] at habove
  rw [Nat.mul_assoc] at hbelow
  refine nearest?_eq_some ?_ ?_ ?_
  · have hfoot : 2 * 2 ^ 52 * (den * 2 ^ m.scale) + 2 * (den * 2 ^ m.scale) ≤
        2 * m.mantissa * (den * 2 ^ m.scale) := by
      rw [← Nat.add_mul]
      exact Nat.mul_le_mul_right _ (by omega)
    have hpower : 2 ^ 52 * 2 ^ m.scale * den = 2 ^ 52 * (den * 2 ^ m.scale) := by
      rw [Nat.mul_assoc, Nat.mul_comm den]
    rw [hquanta, Nat.mul_assoc 2] at hfoot
    omega
  · rw [Nat.add_mul, hquanta, Nat.one_mul]
    omega
  · rw [hquanta]
    omega

/-- A magnitude that is a multiple of the unit is found again. -/
theorem nearest?_divNearest_of_dvd (hden : 0 < den) (hunit : 0 < unit)
    (hmultiple : unit ∣ m.quanta) :
    nearest? (divNearest (m.quanta * den) unit * unit) den = some m := by
  obtain ⟨n, hn⟩ := hmultiple
  have hexact : m.quanta * den = n * den * unit := by
    rw [hn]
    simp only [Nat.mul_comm, Nat.mul_left_comm]
  rw [hexact, divNearest_mul _ hunit, ← hexact, m.nearest?_quanta hden]

end Magnitude

end Reckoner
