/-
Reckoner.Proofs.Number.Text — the texts that are numbers.

No text of a number has a blank in it, so trimming leaves it as it is, and none
starts with a `t`, so it is never taken for a reference. The text with six
decimal places of any number is a number again (`ofText?_sixPlaces`).

  1. Whole numbers
  2. The characters of a number
  3. Six decimal places
-/
import Reckoner.Number.Decimal
import Reckoner.Number.Fixed
import Reckoner.Proofs.Text.Blank
import Reckoner.Proofs.Text.Integer

namespace Reckoner

/-! ## 1. Whole numbers -/

namespace Text

theorem unbroken_of_digitRun? {cs : List Char} {n : Nat} (h : digitRun? cs = some n) :
    Unbroken cs := by
  obtain ⟨-, hdigits, -⟩ := digitRun?_eq_some_iff.1 h
  exact fun c hc => isBlank_of_isDigit (hdigits c hc)

theorem unbroken_of_wholeNumber? {cs : List Char} {n : Int} (h : wholeNumber? cs = some n) :
    Unbroken cs := by
  obtain ⟨sign, ds, size, rfl, hrun, -⟩ := wholeNumber?_eq_some_iff.1 h
  have hsign : Unbroken sign.chars := by cases sign <;> decide
  exact unbroken_append.2 ⟨hsign, unbroken_of_digitRun? hrun⟩

end Text

/-! ## 2. The characters of a number -/

namespace Number

open Text (Unbroken unbroken_append unbroken_cons)

theorem unbroken_spanDigits {cs : List Char} (h : Unbroken (spanDigits cs).2) : Unbroken cs := by
  have hsplit : (spanDigits cs).1 ++ (spanDigits cs).2 = cs := List.takeWhile_append_dropWhile
  rw [← hsplit, unbroken_append]
  exact ⟨fun c hc => Text.isBlank_of_isDigit (List.all_eq_true.1 List.all_takeWhile c hc), h⟩

theorem unbroken_of_exponent? {cs : List Char} {e : Int} (h : exponent? cs = some e) :
    Unbroken cs := by
  cases cs with
  | nil => exact fun c hc => (nomatch hc)
  | cons c cs =>
    rw [exponent?] at h
    split at h
    · next hc =>
      refine unbroken_cons.2 ⟨?_, Text.unbroken_of_wholeNumber? h⟩
      rcases hc with rfl | rfl <;> decide
    · cases h

theorem unbroken_spanFraction {cs : List Char} (h : Unbroken (spanFraction cs).2) :
    Unbroken cs := by
  unfold spanFraction at h
  split at h
  · exact unbroken_cons.2 ⟨by decide, unbroken_spanDigits h⟩
  · exact h

theorem unbroken_of_unsignedDecimal? {cs : List Char} {d : Nat × Int}
    (h : unsignedDecimal? cs = some d) : Unbroken cs := by
  rw [unsignedDecimal?] at h
  simp only at h
  split at h
  · cases h
  · obtain ⟨e, he, -⟩ := Option.map_eq_some_iff.1 h
    exact unbroken_spanDigits (unbroken_spanFraction (unbroken_of_exponent? he))

theorem unbroken_of_unsigned? {negative : Bool} {cs : List Char} {x : Number}
    (h : unsigned? negative cs = some x) : Unbroken cs := by
  rw [unsigned?] at h
  split at h
  · next hd => exact unbroken_of_unsignedDecimal? hd
  · -- The word is spelled in letters, whichever case each of them has.
    have hword : cs.map Char.toLower ∈ [['i', 'n', 'f'],
        ['i', 'n', 'f', 'i', 'n', 'i', 't', 'y'], ['n', 'a', 'n']] := by
      simp only at h
      split at h
      · next hw => rcases hw with hw | hw <;> simp [hw]
      · split at h
        · next hw => simp [hw]
        · cases h
    intro c hc
    rw [← Bool.not_eq_true]
    intro hblank
    have hmem : c ∈ cs.map Char.toLower :=
      List.mem_map.2 ⟨c, hc, Text.toLower_of_isBlank hblank⟩
    have hletters : ∀ w ∈ [['i', 'n', 'f'], ['i', 'n', 'f', 'i', 'n', 'i', 't', 'y'],
        ['n', 'a', 'n']], Unbroken w := by decide
    rw [hletters _ hword c hmem] at hblank
    cases hblank

theorem unbroken_of_ofChars? {cs : List Char} {x : Number} (h : ofChars? cs = some x) :
    Unbroken cs := by
  unfold ofChars? at h
  split at h
  · exact unbroken_cons.2 ⟨by decide, unbroken_of_unsigned? h⟩
  · exact unbroken_cons.2 ⟨by decide, unbroken_of_unsigned? h⟩
  · exact unbroken_of_unsigned? h

/-- Trimming leaves the text of a number as it is. -/
theorem trim_eq_self_of_ofText? {s : String} {x : Number} (h : ofText? s = some x) :
    Text.trim s = s := by
  rw [Text.trim, Text.trimChars_eq_self (unbroken_of_ofChars? h), String.ofList_toList]

/-- No number starts with a `t`. -/
theorem ofChars?_t (cs : List Char) : ofChars? ('t' :: cs) = none := by
  simp [ofChars?, unsigned?, unsignedDecimal?, spanDigits, spanFraction, List.takeWhile,
    List.dropWhile]

/-! ## 3. Six decimal places -/

theorem spanDigits_append {ds rest : List Char} (hds : ∀ c ∈ ds, c.isDigit = true)
    (hrest : ∀ c ∈ rest.head?, c.isDigit = false) : spanDigits (ds ++ rest) = (ds, rest) := by
  rw [spanDigits, List.takeWhile_append_of_pos hds, List.dropWhile_append_of_pos hds]
  cases rest with
  | nil => simp
  | cons c cs =>
    have hc : c.isDigit = false := hrest c rfl
    rw [List.takeWhile_cons_of_neg (by simp [hc]), List.dropWhile_cons_of_neg (by simp [hc]),
      List.append_nil]

/-- Digits, a point and digits make a decimal. -/
theorem unsignedDecimal?_point {ws fs : List Char} (hne : ws ≠ [])
    (hws : ∀ c ∈ ws, c.isDigit = true) (hfs : ∀ c ∈ fs, c.isDigit = true) :
    unsignedDecimal? (ws ++ '.' :: fs) =
      some (Nat.ofDigitChars 10 (ws ++ fs) 0, -(fs.length : Int)) := by
  have hpoint : ∀ c ∈ ('.' :: fs).head?, c.isDigit = false := fun c hc => by
    cases hc
    decide
  have hfraction : spanDigits (fs ++ []) = (fs, []) :=
    spanDigits_append hfs (fun _ hc => nomatch hc)
  rw [List.append_nil] at hfraction
  have hwhole : ws.isEmpty = false := List.isEmpty_eq_false_iff.2 hne
  simp [unsignedDecimal?, spanDigits_append hws hpoint, spanFraction, hfraction, hwhole, exponent?]

/-- Below a million there are six digits at most. -/
theorem length_naturalChars_mod (n : Nat) : (Text.naturalChars (n % 10 ^ 6)).length ≤ 6 :=
  (Nat.length_toDigits_le_iff (by decide) (by decide)).2 (Nat.mod_lt n (by decide))

/-- The digits on both sides of the point are those of the count of millionths. -/
theorem ofDigitChars_sixPlaces (n : Nat) :
    Nat.ofDigitChars 10 (Text.naturalChars (n / 10 ^ 6) ++
      (Text.naturalChars (n % 10 ^ 6)).leftpad 6 '0') 0 = n := by
  have hread : ∀ k : Nat, Nat.ofDigitChars 10 (Text.naturalChars k) 0 = k :=
    fun _ => Nat.ofDigitChars_ten_toDigits
  have hlength := length_naturalChars_mod n
  rw [Nat.ofDigitChars_append, hread, List.leftpad, Nat.ofDigitChars_append,
    Nat.ofDigitChars_replicate_zero, Nat.ofDigitChars_eq_ofDigitChars_zero, hread,
    ← Nat.mul_assoc, ← Nat.pow_add, Nat.add_sub_cancel' hlength]
  exact Nat.div_add_mod n (10 ^ 6)

/-- The text of a count of millionths reads as that many millionths. -/
theorem unsigned?_sixPlaces (negative : Bool) (n : Nat) :
    unsigned? negative (sixPlacesOfMillionths n) = some (ofDecimal negative n (-6)) := by
  obtain ⟨c, cs, hhead, -⟩ := Text.naturalChars_head (n / 10 ^ 6)
  have hpad : ∀ c ∈ (Text.naturalChars (n % 10 ^ 6)).leftpad 6 '0', c.isDigit = true := by
    intro c hc
    rw [List.leftpad, List.mem_append] at hc
    rcases hc with hc | hc
    · rw [List.eq_of_mem_replicate hc]
      decide
    · exact Text.isDigit_of_mem_naturalChars hc
  have hlength : ((Text.naturalChars (n % 10 ^ 6)).leftpad 6 '0').length = 6 := by
    rw [List.length_leftpad]
    exact Nat.max_eq_left (length_naturalChars_mod n)
  have hd := unsignedDecimal?_point (by rw [hhead]; exact List.cons_ne_nil c cs)
    (fun _ => Text.isDigit_of_mem_naturalChars) hpad
  rw [ofDigitChars_sixPlaces, hlength] at hd
  rw [unsigned?, sixPlacesOfMillionths, hd]
  rfl

theorem ofChars?_minus (cs : List Char) : ofChars? ('-' :: cs) = unsigned? true cs := rfl

/-- A digit is no sign. -/
theorem ofChars?_of_isDigit {c : Char} (hc : c.isDigit = true) (cs : List Char) :
    ofChars? (c :: cs) = unsigned? false (c :: cs) := by
  unfold ofChars?
  split
  · next heq =>
    cases heq
    exact absurd hc (by decide)
  · next heq =>
    cases heq
    exact absurd hc (by decide)
  · rfl

/-- The number that the text with six places reads as. -/
def atSixPlaces : Number → Number
  | .finite negative m => ofDecimal negative (millionths m) (-6)
  | x => x

/-- The text with six places of any number is a number again. -/
theorem ofText?_sixPlaces (x : Number) : ofText? x.sixPlaces = some x.atSixPlaces := by
  rw [ofText?, sixPlaces, String.toList_ofList]
  match x with
  | .nan => rfl
  | .infinite true => rfl
  | .infinite false => rfl
  | .finite true m =>
    rw [sixPlacesChars, ofChars?_minus, unsigned?_sixPlaces]
    rfl
  | .finite false m =>
    have hread := unsigned?_sixPlaces false (millionths m)
    obtain ⟨c, cs, hhead, hdigit⟩ := Text.naturalChars_head (millionths m / 10 ^ 6)
    rw [sixPlacesOfMillionths, hhead, List.cons_append] at hread
    rw [sixPlacesChars, sixPlacesOfMillionths, hhead, List.cons_append,
      ofChars?_of_isDigit hdigit, hread]
    rfl

end Number

end Reckoner
