/-
Reckoner.Proofs.Json.Number — numbers are read back from their JSON text.

The text of a number falls into digits before a point, digits behind it and an
exponent. The reader finds these parts again, whatever comes behind the number, as
long as it cannot be taken for more of it (`readUnsigned_chars`). In each of the
ways in which a decimal may be laid out its parts say its value
(`spells_decimalChars`), so that a finite number is read as it was written
(`readUnsigned_magnitudeChars`), and so is a whole number that fits a word.

  1. The parts of a number
  2. Reading the parts
  3. Whole numbers
  4. The significant digits of a number
  5. The layouts of a decimal
  6. Finite numbers
-/
import Reckoner.Json.Reader
import Reckoner.Json.Writer
import Reckoner.Proofs.Number.Decimal

namespace Reckoner.Json

open Text (Symbol naturalChars isDigit_of_mem_naturalChars naturalChars_ne_nil)

/-! ## 1. The parts of a number -/

/-- All characters are digits. -/
def AllDigits (cs : List Char) : Prop := ∀ c ∈ cs, c.isDigit = true

/-- The text does not go on with a digit. -/
def NoDigit (rest : List Symbol) : Prop := ∀ c cs, rest = some c :: cs → c.isDigit = false

/-- The text does not go on as a number does. -/
def EndsNumber (rest : List Symbol) : Prop :=
  ∀ c cs, rest = some c :: cs → c.isDigit = false ∧ c ≠ '.' ∧ c ≠ 'e' ∧ c ≠ 'E'

theorem EndsNumber.noDigit {rest : List Symbol} (h : EndsNumber rest) : NoDigit rest :=
  fun c cs hrest => (h c cs hrest).1

theorem noDigit_cons {c : Char} (hc : c.isDigit = false) (rest : List Symbol) :
    NoDigit (some c :: rest) := by
  intro c' cs h
  cases h
  exact hc

/-- The digits before the point, those behind it, and the exponent. -/
structure Parts where
  whole : List Char
  fraction : List Char
  exponent : Option Int

namespace Parts

/-- A point and the digits behind it, if there are any. -/
def fractionChars (fraction : List Char) : List Char :=
  if fraction = [] then [] else '.' :: fraction

/-- An exponent with its sign, if there is one. -/
def exponentChars : Option Int → List Char
  | some n => 'e' :: signedChars n
  | none => []

/-- The parts in one text. -/
def chars (p : Parts) : List Char :=
  p.whole ++ (fractionChars p.fraction ++ exponentChars p.exponent)

/-- The parts are as they stand in JSON: the first has at least one digit and does
not begin with a zero unless it is one. -/
structure WellFormed (p : Parts) : Prop where
  whole : AllDigits p.whole
  ne_nil : p.whole ≠ []
  lead : p.whole = ['0'] ∨ p.whole.head? ≠ some '0'
  fraction : AllDigits p.fraction

/-- The number that the parts stand for. -/
def value (p : Parts) (negative : Bool) : Number :=
  Number.ofDecimal negative (Nat.ofDigitChars 10 (p.whole ++ p.fraction) 0)
    (p.exponent.getD 0 - p.fraction.length)

end Parts

/-! ## 2. Reading the parts -/

theorem spanDigits_append {ds : List Char} (hds : AllDigits ds) {rest : List Symbol}
    (hrest : NoDigit rest) : spanDigits (ds.map some ++ rest) = (ds, rest) := by
  induction ds with
  | nil =>
    rw [List.map_nil, List.nil_append]
    unfold spanDigits
    split
    · next c cs => rw [if_neg (by rw [hrest c cs rfl]; decide)]
    · rfl
  | cons c cs ih =>
    have hc : c.isDigit = true := hds c List.mem_cons_self
    have hcs := ih fun d hd => hds d (List.mem_cons_of_mem c hd)
    rw [List.map_cons, List.cons_append, spanDigits, if_pos hc, hcs]

theorem readWhole?_append {ds : List Char} (hds : AllDigits ds) (hne : ds ≠ [])
    (hlead : ds = ['0'] ∨ ds.head? ≠ some '0') {rest : List Symbol} (hrest : NoDigit rest) :
    readWhole? (ds.map some ++ rest) = some (ds, rest) := by
  rw [readWhole?, spanDigits_append hds hrest]
  split
  · next heq =>
    cases heq
    exact absurd rfl hne
  · next heq =>
    cases heq
    rcases hlead with h | h
    · cases h
    · exact absurd rfl h
  · rfl

theorem readFraction?_append {fs : List Char} (hfs : AllDigits fs) {rest : List Symbol}
    (hdigit : NoDigit rest) (hpoint : ∀ cs, rest ≠ some '.' :: cs) :
    readFraction? ((Parts.fractionChars fs).map some ++ rest) = some (fs, rest) := by
  rw [Parts.fractionChars]
  by_cases hnil : fs = []
  · rw [if_pos hnil, hnil, List.map_nil, List.nil_append]
    unfold readFraction?
    split
    · next cs => exact absurd rfl (hpoint cs)
    · rfl
  · rw [if_neg hnil, List.map_cons, List.cons_append, readFraction?, spanDigits_append hfs hdigit]
    split
    · next heq =>
      cases heq
      exact absurd rfl hnil
    · rfl

theorem allDigits_naturalChars (n : Nat) : AllDigits (naturalChars n) :=
  fun _ hc => isDigit_of_mem_naturalChars hc

theorem readSignedDigits?_signedChars (n : Int) {rest : List Symbol} (hrest : NoDigit rest) :
    readSignedDigits? ((signedChars n).map some ++ rest) = some (n, rest) := by
  have hspan := fun k => spanDigits_append (allDigits_naturalChars k) hrest
  have hvalue := Number.ofDigitChars_naturalChars
  cases n with
  | ofNat k =>
    have hchars : signedChars (.ofNat k) = '+' :: naturalChars k := if_pos (Int.natCast_nonneg k)
    rw [hchars, List.map_cons, List.cons_append, readSignedDigits?]
    simp only [hspan]
    split
    · next heq => exact absurd (congrArg Prod.fst heq) (naturalChars_ne_nil k)
    · next heq =>
      obtain ⟨rfl, rfl⟩ := Prod.mk.inj heq
      rw [hvalue]
      rfl
  | negSucc k =>
    have hchars : signedChars (.negSucc k) = '-' :: naturalChars (k + 1) :=
      if_neg (Int.not_le.2 (Int.negSucc_lt_zero k))
    rw [hchars, List.map_cons, List.cons_append, readSignedDigits?]
    simp only [hspan]
    split
    · next heq => exact absurd (congrArg Prod.fst heq) (naturalChars_ne_nil (k + 1))
    · next heq =>
      obtain ⟨rfl, rfl⟩ := Prod.mk.inj heq
      rw [hvalue]
      rfl

theorem readExponent?_append (e : Option Int) {rest : List Symbol} (hrest : EndsNumber rest) :
    readExponent? ((Parts.exponentChars e).map some ++ rest) = some (e, rest) := by
  cases e with
  | none =>
    rw [Parts.exponentChars, List.map_nil, List.nil_append]
    unfold readExponent?
    split
    · next c cs =>
      obtain ⟨-, -, hlower, hupper⟩ := hrest c cs rfl
      rw [if_neg (not_or.2 ⟨hlower, hupper⟩)]
    · rfl
  | some n =>
    rw [Parts.exponentChars, List.map_cons, List.cons_append, readExponent?, if_pos (.inl rfl),
      readSignedDigits?_signedChars n hrest.noDigit]
    rfl

/-- What follows the digits of a number does not go on with a digit. -/
theorem noDigit_exponentChars (e : Option Int) {rest : List Symbol} (hrest : EndsNumber rest) :
    NoDigit ((Parts.exponentChars e).map some ++ rest) ∧
      ∀ cs, (Parts.exponentChars e).map some ++ rest ≠ some '.' :: cs := by
  cases e with
  | none => exact ⟨hrest.noDigit, fun cs h => (hrest '.' cs h).2.1 rfl⟩
  | some n => exact ⟨noDigit_cons (by decide) _, fun cs h => by cases h⟩

theorem noDigit_fractionChars (fs : List Char) {rest : List Symbol} (hrest : NoDigit rest) :
    NoDigit ((Parts.fractionChars fs).map some ++ rest) := by
  rw [Parts.fractionChars]
  split
  · exact hrest
  · exact noDigit_cons (by decide) _

/-- The reader finds the parts of a number. -/
theorem readUnsigned_chars {p : Parts} (hp : p.WellFormed) (negative : Bool)
    {rest : List Symbol} (hrest : EndsNumber rest) :
    readUnsigned negative (p.chars.map some ++ rest) =
      (numberTree negative p.whole p.fraction p.exponent, some rest) := by
  obtain ⟨hdigit, hpoint⟩ := noDigit_exponentChars p.exponent hrest
  rw [Parts.chars, List.map_append, List.map_append, List.append_assoc, List.append_assoc,
    readUnsigned, readWhole?_append hp.whole hp.ne_nil hp.lead (noDigit_fractionChars _ hdigit)]
  simp only [readFraction?_append hp.fraction hdigit hpoint, readExponent?_append _ hrest]

/-! ## 3. Whole numbers -/

theorem lead_naturalChars (n : Nat) :
    naturalChars n = ['0'] ∨ (naturalChars n).head? ≠ some '0' := by
  by_cases hn : n = 0
  · subst hn
    exact .inl (Nat.toDigits_zero 10)
  · exact .inr (Number.head?_naturalChars hn)

/-- The parts of a whole number are its digits. -/
theorem wellFormed_natural (n : Nat) : Parts.WellFormed ⟨naturalChars n, [], none⟩ where
  whole := allDigits_naturalChars n
  ne_nil := naturalChars_ne_nil n
  lead := lead_naturalChars n
  fraction _ hc := nomatch hc

theorem readUnsigned_naturalChars (n : Nat) (negative : Bool) {rest : List Symbol}
    (hrest : EndsNumber rest) :
    readUnsigned negative ((naturalChars n).map some ++ rest) =
      (numberTree negative (naturalChars n) [] none, some rest) := by
  have hread := readUnsigned_chars (wellFormed_natural n) negative hrest
  rw [Parts.chars, Parts.fractionChars, if_pos rfl, Parts.exponentChars, List.append_nil,
    List.append_nil] at hread
  exact hread

theorem numberTree_natural {n : Nat} (hn : n < 2 ^ 64) :
    numberTree false (naturalChars n) [] none = .integer n := by
  rw [numberTree, List.append_nil, Number.ofDigitChars_naturalChars]
  simp [hn]

theorem numberTree_negative {n : Nat} (hpos : 0 < n) (hn : n ≤ 2 ^ 63) :
    numberTree true (naturalChars n) [] none = .integer (-n) := by
  rw [numberTree, List.append_nil, Number.ofDigitChars_naturalChars]
  simp [hpos, hn]

/-! ## 4. The significant digits of a number -/

theorem AllDigits.append {ds es : List Char} (hds : AllDigits ds) (hes : AllDigits es) :
    AllDigits (ds ++ es) := fun c hc => (List.mem_append.1 hc).elim (hds c) (hes c)

theorem allDigits_zero : AllDigits ['0'] := by
  intro c hc
  rw [List.mem_singleton.1 hc]
  decide

theorem allDigits_zeros (k : Nat) : AllDigits (List.replicate k '0') := by
  intro c hc
  rw [List.eq_of_mem_replicate hc]
  decide

/-- Digits that begin with one other than zero. -/
structure Significant (ds : List Char) : Prop where
  digits : AllDigits ds
  ne_nil : ds ≠ []
  lead : ds.head? ≠ some '0'

/-- Dropping the zeros at the end of a text leaves a number of them to be put back. -/
theorem exists_zeros (cs : List Char) :
    ∃ k, cs = (cs.reverse.dropWhile (· == '0')).reverse ++ List.replicate k '0' := by
  have hzeros : ∀ c ∈ cs.reverse.takeWhile (· == '0'), c = '0' :=
    fun c hc => eq_of_beq (List.all_eq_true.1 List.all_takeWhile c hc)
  refine ⟨(cs.reverse.takeWhile (· == '0')).length, ?_⟩
  have hsplit := congrArg List.reverse
    (List.takeWhile_append_dropWhile (p := (· == '0')) (l := cs.reverse))
  rw [List.reverse_append, List.reverse_reverse, List.eq_replicate_of_mem hzeros,
    List.reverse_replicate] at hsplit
  exact hsplit.symm

/-- The digits of a number without the zeros at their end, and how many these are. -/
theorem significantDigits_spec {n : Nat} (hn : n ≠ 0) :
    Significant (significantDigits n) ∧ ∃ k,
      (naturalChars n).length = (significantDigits n).length + k ∧
      n = Nat.ofDigitChars 10 (significantDigits n) 0 * 10 ^ k := by
  obtain ⟨k, hk⟩ := exists_zeros (naturalChars n)
  have hsplit : naturalChars n = significantDigits n ++ List.replicate k '0' := hk
  have hhead := Number.head?_naturalChars hn
  have hdigits := allDigits_naturalChars n
  have hvalue := Number.ofDigitChars_naturalChars n
  rw [hsplit] at hhead hdigits hvalue
  have hne : significantDigits n ≠ [] := by
    intro hnil
    have hpos : k ≠ 0 := by
      rintro rfl
      rw [hnil] at hsplit
      exact naturalChars_ne_nil n hsplit
    rw [hnil, List.nil_append, List.head?_replicate, if_neg hpos] at hhead
    exact hhead rfl
  refine ⟨⟨fun c hc => hdigits c (List.mem_append_left _ hc), hne, ?_⟩, k, ?_, ?_⟩
  · rwa [List.head?_append, List.head?_eq_some_head hne, Option.some_or,
      ← List.head?_eq_some_head hne] at hhead
  · rw [hsplit, List.length_append, List.length_replicate]
  · rw [Nat.ofDigitChars_append, Nat.ofDigitChars_replicate_zero] at hvalue
    rw [Nat.mul_comm]
    exact hvalue.symm

/-! ## 5. The layouts of a decimal -/

/-- The text is a number with a point or an exponent; its value is that of the
digits, moved by a power of ten. -/
def Spells (text ds : List Char) (power : Int) : Prop :=
  ∃ p : Parts, p.WellFormed ∧ p.chars = text ∧ (p.fraction ≠ [] ∨ p.exponent ≠ none) ∧
    ∀ negative, p.value negative = Number.ofDecimal negative (Nat.ofDigitChars 10 ds 0) power

/-- The point stands before the digits. -/
theorem spells_before {ds : List Char} (hds : Significant ds) (k : Nat) :
    Spells ('0' :: '.' :: (List.replicate k '0' ++ ds)) ds (-(k + ds.length : Nat)) := by
  have hne : List.replicate k '0' ++ ds ≠ [] :=
    fun h => hds.ne_nil (List.append_eq_nil_iff.1 h).2
  refine ⟨⟨['0'], List.replicate k '0' ++ ds, none⟩, ?_, ?_, .inl hne, fun negative => ?_⟩
  · exact ⟨allDigits_zero, List.cons_ne_nil _ _, .inl rfl, (allDigits_zeros k).append hds.digits⟩
  · rw [Parts.chars, Parts.fractionChars, if_neg hne, Parts.exponentChars, List.append_nil]
    rfl
  · have hzero : Nat.ofDigitChars 10 (['0'] ++ (List.replicate k '0' ++ ds)) 0 =
        Nat.ofDigitChars 10 ds 0 := by
      rw [← List.append_assoc, Nat.ofDigitChars_append, Nat.ofDigitChars_append,
        Nat.ofDigitChars_replicate_zero]
      rfl
    rw [Parts.value, hzero, List.length_append, List.length_replicate, Option.getD_none,
      Int.zero_sub]

/-- The point stands behind the digits and some zeros. -/
theorem spells_behind {ds : List Char} (hds : Significant ds) (k : Nat) :
    Spells (ds ++ List.replicate k '0' ++ ['.', '0']) ds k := by
  refine ⟨⟨ds ++ List.replicate k '0', ['0'], none⟩, ?_, rfl,
    .inl (List.cons_ne_nil _ _), fun negative => ?_⟩
  · refine ⟨hds.digits.append (allDigits_zeros k), ?_, .inr ?_, allDigits_zero⟩
    · exact fun h => hds.ne_nil (List.append_eq_nil_iff.1 h).1
    · rw [List.head?_append, List.head?_eq_some_head hds.ne_nil, Option.some_or,
        ← List.head?_eq_some_head hds.ne_nil]
      exact hds.lead
  · have hzeros : Nat.ofDigitChars 10 (ds ++ List.replicate k '0' ++ ['0']) 0 =
        Nat.ofDigitChars 10 ds 0 * 10 ^ (k + 1) := by
      rw [List.append_assoc, ← List.replicate_succ', Nat.ofDigitChars_append,
        Nat.ofDigitChars_replicate_zero, Nat.mul_comm]
    rw [Parts.value, hzeros, Number.ofDecimal_mul_pow, Option.getD_none]
    congr 1
    rw [List.length_singleton]
    omega

/-- The point stands among the digits. -/
theorem spells_within {ds : List Char} (hds : Significant ds) {k : Nat} (hpos : 0 < k)
    (hlt : k < ds.length) :
    Spells (ds.take k ++ '.' :: ds.drop k) ds (-(ds.length - k : Nat)) := by
  have hne : ds.drop k ≠ [] := fun h => Nat.not_le.2 hlt (List.drop_eq_nil_iff.1 h)
  refine ⟨⟨ds.take k, ds.drop k, none⟩, ?_, ?_, .inl hne, fun negative => ?_⟩
  · refine ⟨fun c hc => hds.digits c (List.mem_of_mem_take hc), ?_, .inr ?_,
      fun c hc => hds.digits c (List.mem_of_mem_drop hc)⟩
    · exact fun h => (List.take_eq_nil_iff.1 h).elim (Nat.ne_of_gt hpos) hds.ne_nil
    · rw [List.head?_take, if_neg (Nat.ne_of_gt hpos)]
      exact hds.lead
  · rw [Parts.chars, Parts.fractionChars, if_neg hne, Parts.exponentChars, List.append_nil]
  · rw [Parts.value, List.take_append_drop, List.length_drop, Option.getD_none, Int.zero_sub]

/-- The point stands behind the first digit, and an exponent behind them all. -/
theorem spells_exponent {c : Char} {cs : List Char} (hds : Significant (c :: cs)) (n : Int) :
    Spells (c :: (Parts.fractionChars cs ++ 'e' :: signedChars n)) (c :: cs) (n - cs.length) := by
  refine ⟨⟨[c], cs, some n⟩, ?_, rfl, .inr (Option.some_ne_none n), fun negative => rfl⟩
  refine ⟨fun d hd => ?_, List.cons_ne_nil _ _, .inr hds.lead,
    fun d hd => hds.digits d (List.mem_cons_of_mem c hd)⟩
  rw [List.mem_singleton.1 hd]
  exact hds.digits c List.mem_cons_self

/-- A decimal is laid out so that its text spells its significant digits. -/
theorem spells_decimalChars {d : Number.Decimal} {k : Nat}
    (hds : Significant (significantDigits d.mantissa))
    (hlength : (naturalChars d.mantissa).length = (significantDigits d.mantissa).length + k) :
    Spells (decimalChars d) (significantDigits d.mantissa) (k + d.exponent) := by
  rw [decimalChars]
  generalize significantDigits d.mantissa = ds at hds hlength
  generalize hpoint : ((naturalChars d.mantissa).length : Int) + d.exponent = point
  rw [hlength] at hpoint
  dsimp only
  split
  · split
    · have hpower : (k : Int) + d.exponent = -(point.natAbs + ds.length : Nat) := by omega
      rw [hpower]
      exact spells_before hds _
    · split
      · have hpower : (k : Int) + d.exponent = (point.toNat - ds.length : Nat) := by omega
        rw [hpower]
        exact spells_behind hds _
      · have hpower : (k : Int) + d.exponent = -(ds.length - point.toNat : Nat) := by omega
        rw [hpower]
        exact spells_within hds (by omega) (by omega)
  · cases ds with
    | nil => exact absurd rfl hds.ne_nil
    | cons c cs =>
      have hpower : (k : Int) + d.exponent = point - 1 - cs.length := by
        rw [List.length_cons] at hpoint
        omega
      rw [hpower]
      cases cs with
      | nil => exact spells_exponent hds (point - 1)
      | cons c' cs => exact spells_exponent hds (point - 1)

/-! ## 6. Finite numbers -/

/-- A text with a point or an exponent is read as the number that it stands for. -/
theorem Spells.readUnsigned {text ds : List Char} {power : Int} (h : Spells text ds power)
    {negative : Bool} {m : Magnitude} {rest : List Symbol} (hrest : EndsNumber rest)
    (hvalue : Number.ofDecimal negative (Nat.ofDigitChars 10 ds 0) power = .finite negative m) :
    readUnsigned negative (text.map some ++ rest) = (.number (.finite negative m), some rest) := by
  obtain ⟨p, hp, rfl, hpoint, hspelled⟩ := h
  have hwhole : (p.fraction.isEmpty && p.exponent.isNone) = false := by
    rcases hpoint with hne | hne
    · rw [List.isEmpty_eq_false_iff.2 hne, Bool.false_and]
    · rw [Option.isNone_eq_false_iff.2 (Option.isSome_iff_ne_none.2 hne), Bool.and_false]
  have hnumber : p.value negative = .finite negative m := (hspelled negative).trans hvalue
  rw [Parts.value] at hnumber
  rw [readUnsigned_chars hp negative hrest]
  simp only [numberTree, hnumber, hwhole, Bool.false_eq_true, if_false]

/-- A text with a point or an exponent begins with a digit. -/
theorem Spells.head {text ds : List Char} {power : Int} (h : Spells text ds power) :
    ∃ c cs, text = c :: cs ∧ c.isDigit = true := by
  obtain ⟨p, hp, rfl, -, -⟩ := h
  obtain ⟨c, cs, hwhole⟩ := List.exists_cons_of_ne_nil hp.ne_nil
  refine ⟨c, cs ++ (Parts.fractionChars p.fraction ++ Parts.exponentChars p.exponent), ?_, ?_⟩
  · rw [Parts.chars, hwhole, List.cons_append]
  · exact hp.whole c (hwhole ▸ List.mem_cons_self)

/-- The text of a magnitude spells digits that make up the magnitude. -/
theorem spells_magnitudeChars (m : Magnitude) :
    ∃ ds power, Spells (magnitudeChars m) ds power ∧ ∀ negative,
      Number.ofDecimal negative (Nat.ofDigitChars 10 ds 0) power = .finite negative m := by
  by_cases hm : m.quanta = 0
  · obtain rfl := Magnitude.quanta_eq_zero_iff.1 hm
    refine ⟨['0'], 0, ⟨⟨['0'], ['0'], none⟩, ?_, rfl, .inl (List.cons_ne_nil _ _), ?_⟩, ?_⟩
    · exact ⟨allDigits_zero, List.cons_ne_nil _ _, .inl rfl, allDigits_zero⟩
    · exact fun negative =>
        (Number.ofDecimal_zero negative _).trans (Number.ofDecimal_zero negative _).symm
    · exact fun negative => Number.ofDecimal_zero negative 0
  · have hmantissa : m.mantissa ≠ 0 := fun h => hm (by rw [Magnitude.quanta, h, Nat.zero_mul])
    obtain ⟨hds, k, hlength, hvalue⟩ :=
      significantDigits_spec (Number.mantissa_shortestDecimal_ne_zero hm)
    rw [magnitudeChars, if_neg hmantissa]
    refine ⟨_, _, spells_decimalChars hds hlength, fun negative => ?_⟩
    rw [Int.add_comm, ← Number.ofDecimal_mul_pow, ← hvalue]
    exact Number.ofDecimal_shortestDecimal hm negative

theorem magnitudeChars_head (m : Magnitude) :
    ∃ c cs, magnitudeChars m = c :: cs ∧ c.isDigit = true := by
  obtain ⟨_, _, hspells, -⟩ := spells_magnitudeChars m
  exact hspells.head

/-- A magnitude is read as it was written. -/
theorem readUnsigned_magnitudeChars (m : Magnitude) (negative : Bool) {rest : List Symbol}
    (hrest : EndsNumber rest) :
    readUnsigned negative ((magnitudeChars m).map some ++ rest) =
      (.number (.finite negative m), some rest) := by
  obtain ⟨_, _, hspells, hvalue⟩ := spells_magnitudeChars m
  exact hspells.readUnsigned hrest (hvalue negative)

end Reckoner.Json
