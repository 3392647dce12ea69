/-
Reckoner.Proofs.Worker.Resolved — a result stands in for a reference as a stable literal.

What takes the place of a reference is a literal again, which a worker reads as a
number with the same literal: however often a value is written out and read back, only
the first time can change it, and from 2 ^ 33 on not even that does
(`resolved_reads_back`).
-/
import Reckoner.Proofs.Formula.Value
import Reckoner.Proofs.Number.SixPlaces

namespace Reckoner.Operand

/-- No number is taken for a reference. -/
theorem reference?_of_ofText? {s : String} {x : Number} (h : Number.ofText? s = some x) :
    reference? s.toList = none := by
  unfold Number.ofText? at h
  unfold reference?
  split
  · next rest hchars =>
    rw [hchars, Number.ofChars?_t] at h
    cases h
  · rfl

theorem ofText_resolved (v : Number) : ofText (resolved v).text = resolved v := by
  have hliteral := reference?_of_ofText? (Number.ofText?_sixPlaces v)
  simp only [resolved, text, ofText, hliteral]

/-- The literal of any value is kept as it is and read as a value with the same literal. That
value is infinite or `nan` only if it is the first one, is finite with the same sign if the
first one is, and is the first one wherever that is at least 2 ^ 33 in size. -/
theorem resolved_reads_back (v : Number) :
    ofText (resolved v).text = resolved v ∧ (resolved v).isLiteral = true ∧
    ∃ w, (resolved v).value = .ok w ∧ resolved w = resolved v ∧
      (v.isFinite = false → w = v) ∧
      ∀ negative m, v = .finite negative m → ∃ m', w = .finite negative m' ∧
        (2 ^ 33 * Number.quantaOfOne ≤ m.quanta → m' = m) := by
  refine ⟨ofText_resolved v, rfl, v.atSixPlaces, value_resolved v, ?same, ?special, ?finite⟩
  case same => rw [resolved, resolved, v.sixPlaces_atSixPlaces]
  case special =>
    intro hspecial
    cases v with
    | nan => rfl
    | infinite negative => rfl
    | finite negative m => cases hspecial
  case finite =>
    intro negative m hv
    obtain ⟨m', hread, -, hlarge⟩ := Number.atSixPlaces_finite negative m
    rw [hv]
    exact ⟨m', hread, hlarge⟩

/-- The least size from which on a value is kept is 2 ^ 33 itself. -/
theorem resolved_reads_back_from_two_pow_33 :
    let m : Magnitude := ⟨2 ^ 52, 1055, by decide⟩
    2 ^ 33 * Number.quantaOfOne ≤ m.quanta ∧
      (resolved (.finite true m)).value = .ok (.finite true m) := by
  intro m
  have hsize : 2 ^ 33 * Number.quantaOfOne ≤ m.quanta := by decide +kernel
  obtain ⟨-, -, w, hvalue, -, -, hfinite⟩ := resolved_reads_back (.finite true m)
  obtain ⟨m', rfl, hkept⟩ := hfinite true m rfl
  rw [hkept hsize] at hvalue
  exact ⟨hsize, hvalue⟩

/-- Below 2 ^ 33 the value itself may change, but only once. -/
example : (Number.ofText? "0.1234567").map (fun v =>
    (v.atSixPlaces == v, v.atSixPlaces.atSixPlaces == v.atSixPlaces)) = some (false, true) := by
  decide +kernel

end Reckoner.Operand
