/-
Reckoner.Proofs.Task.Operand — the text of an operand is the normal form of its texts.

A text is a reference if it is `task` and any spelling of an id that fits its word, so
the same task has many references. Reading a text and writing what was read leaves one
text for each operand: a literal and the plain spelling of a reference stay as they
are, every other spelling becomes the plain one, and reading the result again changes
nothing (`text_is_normal_form`).

  1. The texts of a reference
  2. Reading, then writing
-/
import Reckoner.Proofs.Task.RoundTrip
import Reckoner.Proofs.Text.Integer

namespace Reckoner.Operand

open Text (Spelling)

/-! ## 1. The texts of a reference -/

/-- What a text stands for is a reference, or the text itself as a literal. -/
theorem ofText_cases (s : String) : ofText s = literal s ∨ ∃ id, ofText s = pending id := by
  rw [ofText]
  split
  · next id _ => exact .inr ⟨id, rfl⟩
  · exact .inl rfl

/-- The references to a task are `task` and the spellings of its id. -/
theorem ofText_eq_pending_iff {s : String} {id : Int} :
    ofText s = pending id ↔
      Text.fitsSigned64 id = true ∧ ∃ p : Spelling, s = "task" ++ p.text ∧ id = p.value := by
  have hread : ofText s = pending id ↔ reference? s.toList = some id := by
    rw [ofText]
    split
    · next href => rw [href, pending.injEq, Option.some.injEq]
    · next href =>
      rw [href]
      refine iff_of_false (fun hliteral => ?_) fun hnone => ?_
      · cases hliteral
      · cases hnone
  rw [hread, reference?_eq_some_iff]
  constructor
  · rintro ⟨rest, rfl, hrest⟩
    obtain ⟨hfits, p, rfl, hvalue⟩ := Text.signed64?_eq_some_iff.1 hrest
    exact ⟨hfits, p, rfl, hvalue⟩
  · rintro ⟨hfits, p, rfl, hvalue⟩
    exact ⟨p.text, rfl, Text.signed64?_eq_some_iff.2 ⟨hfits, p, rfl, hvalue⟩⟩

/-- A reference is written with the spelling that is not loose. -/
theorem text_pending_value_eq_iff (p : Spelling) :
    (pending p.value).text = "task" ++ p.text ↔ ¬ p.IsLoose := by
  rw [text, ← String.toList_inj, String.toList_append, String.toList_append,
    List.append_right_inj, Text.toList_integer, Spelling.text, String.toList_ofList,
    Text.integerChars_value_eq_iff]

/-! ## 2. Reading, then writing -/

/-- A reference comes back if and only if its id fits the word that it is read into. -/
theorem ofText_text_pending_iff (id : Int) :
    ofText (pending id).text = pending id ↔ Text.fitsSigned64 id = true :=
  ⟨fun h => (ofText_eq_pending_iff.1 h).1, reread_pending⟩

/-- An operand that was read comes back. -/
theorem ofText_text_ofText (s : String) : ofText (ofText s).text = ofText s := by
  rcases ofText_cases s with hliteral | ⟨id, hpending⟩
  · rw [hliteral, text, hliteral]
  · rw [hpending, ofText_text_pending_iff]
    exact (ofText_eq_pending_iff.1 hpending).1

/-- The texts that are not written as they were read are the loose spellings of references. -/
theorem text_ofText_ne_iff (s : String) :
    (ofText s).text ≠ s ↔ ∃ p : Spelling,
      s = "task" ++ p.text ∧ Text.fitsSigned64 p.value = true ∧ p.IsLoose := by
  constructor
  · intro hne
    rcases ofText_cases s with hliteral | ⟨id, hpending⟩
    · rw [hliteral] at hne
      exact absurd rfl hne
    · obtain ⟨hfits, p, rfl, rfl⟩ := ofText_eq_pending_iff.1 hpending
      rw [hpending, ne_eq, text_pending_value_eq_iff, Decidable.not_not] at hne
      exact ⟨p, rfl, hfits, hne⟩
  · rintro ⟨p, rfl, hfits, hloose⟩
    have hpending : ofText ("task" ++ p.text) = pending p.value :=
      ofText_eq_pending_iff.2 ⟨hfits, p, rfl, rfl⟩
    rw [hpending, ne_eq, text_pending_value_eq_iff, Decidable.not_not]
    exact hloose

/-- A reference comes back from its text exactly if its id fits its word, and whatever is read
from a text comes back. Such a text is written in another way exactly if it is `task` and a
spelling of an id with a plus sign, zeros in front, or a minus sign in front of zero. So two
operands that were read are the same exactly if they are written alike. -/
theorem text_is_normal_form :
    (∀ id, ofText (pending id).text = pending id ↔ Text.fitsSigned64 id = true) ∧
    (∀ s, ofText (ofText s).text = ofText s) ∧
    (∀ s, (ofText s).text ≠ s ↔ ∃ p : Spelling,
      s = "task" ++ p.text ∧ Text.fitsSigned64 p.value = true ∧ p.IsLoose) ∧
    ∀ s t, (ofText s).text = (ofText t).text ↔ ofText s = ofText t := by
  refine ⟨ofText_text_pending_iff, ofText_text_ofText, text_ofText_ne_iff, fun s t => ?_⟩
  constructor
  · intro h
    calc ofText s = ofText (ofText s).text := (ofText_text_ofText s).symm
      _ = ofText (ofText t).text := congrArg ofText h
      _ = ofText t := ofText_text_ofText t
  · exact congrArg text

/-- All spellings of an id become one text, and above the greatest id there are only literals. -/
example : ["task+7", "task007", "task-0", "task09223372036854775807",
      "task09223372036854775808"].map (fun s => (ofText s).text) =
    ["task7", "task7", "task0", "task9223372036854775807", "task09223372036854775808"] := by
  decide +kernel

end Reckoner.Operand
