/-
Reckoner.Proofs.Task.RoundTrip — which tasks survive their JSON, and what becomes of the rest.

An operand is written as text alone, so a literal that reads like a reference comes
back as one (`Operand.Mimics`). JSON has no word for a number that is not finite, so
such a result does not come back at all. Nothing else is lost: every task that fits
its words is read back, and it is the same task exactly if none of its literals
mimics a reference and its result is finite (`Task.decode_encode`).

  1. Operands
  2. Tasks
-/
import Reckoner.Proofs.Task.Codec
import Reckoner.Proofs.Task.Linked

namespace Reckoner

/-! ## 1. Operands -/

namespace Operand

/-- The operand is a literal, but its text is that of a reference to this task. -/
def Mimics (o : Operand) (id : Int) : Prop :=
  ∃ rest, o = .literal ("task" ++ rest) ∧ Text.signed64? rest = some id

/-- The operand refers to no task whose id is too long for its word. -/
def FitsWord (o : Operand) : Prop := ∀ id, o = .pending id → Text.fitsSigned64 id = true

/-- What comes of an operand that is written and read. -/
inductive Arrives (o : Operand) : Operand → Prop
  | same (honest : ∀ id, ¬ o.Mimics id) : Arrives o o
  | reference {id : Int} (mimics : o.Mimics id) : Arrives o (.pending id)

theorem reference?_eq_some_iff {s : String} {id : Int} :
    reference? s.toList = some id ↔ ∃ rest, s = "task" ++ rest ∧ Text.signed64? rest = some id := by
  constructor
  · intro h
    unfold reference? at h
    split at h
    · next rest hs =>
      refine ⟨String.ofList rest, String.toList_inj.1 ?_, ?_⟩
      · rw [hs, String.toList_append, String.toList_ofList (l := rest)]
        rfl
      · rwa [Text.signed64?, String.toList_ofList]
    · cases h
  · rintro ⟨rest, rfl, hrest⟩
    rw [String.toList_append]
    exact hrest

theorem mimics_literal_iff {s : String} {id : Int} :
    (literal s).Mimics id ↔ reference? s.toList = some id := by
  rw [reference?_eq_some_iff, Mimics]
  simp only [literal.injEq]

/-- A reference is read back as it was written. -/
theorem reread_pending {id : Int} (h : Text.fitsSigned64 id = true) :
    (pending id).reread = pending id := by
  have href : reference? ("task" ++ Text.integer id).toList = some id :=
    reference?_eq_some_iff.2 ⟨_, rfl, Text.signed64?_integer h⟩
  rw [reread, text, ofText, href]

theorem arrives_reread {o : Operand} (h : o.FitsWord) : o.Arrives o.reread := by
  cases o with
  | pending id =>
    rw [reread_pending (h id rfl)]
    refine .same fun id => ?_
    rintro ⟨rest, ho, -⟩
    cases ho
  | literal s =>
    cases href : reference? s.toList with
    | none =>
      rw [reread_literal href]
      refine .same fun id hmimics => ?_
      rw [mimics_literal_iff, href] at hmimics
      cases hmimics
    | some id =>
      have hreread : (literal s).reread = pending id := by
        rw [reread, text, ofText, href]
      rw [hreread]
      exact .reference (mimics_literal_iff.2 href)

theorem Arrives.eq_pending {o o' : Operand} (h : o.Arrives o') {id : Int} (hid : o.Mimics id) :
    o' = .pending id := by
  cases h with
  | same honest => exact absurd hid (honest id)
  | @reference other mimics =>
    have hsame := hid
    obtain ⟨rest, rfl, -⟩ := hid
    rw [mimics_literal_iff] at hsame mimics
    rw [mimics, Option.some.injEq] at hsame
    rw [hsame]

/-- Only a literal that mimics no reference arrives as it is. -/
theorem Arrives.eq_iff {o o' : Operand} (h : o.Arrives o') : o' = o ↔ ∀ id, ¬ o.Mimics id := by
  cases h with
  | same honest => exact iff_of_true rfl honest
  | reference mimics =>
    refine iff_of_false ?_ fun honest => honest _ mimics
    obtain ⟨rest, rfl, -⟩ := mimics
    exact fun heq => nomatch heq

end Operand

/-! ## 2. Tasks -/

namespace Task

/-- All the numbers of a task fit the words that they are kept in. -/
structure Fits (t : Task) : Prop extends t.FitsWords where
  operand : ∀ side, (t.operand side).FitsWord

/-- The text of a task, whatever its fields, is read as a task again. It is the same
task exactly if no literal of it mimics a reference and its result is finite. Otherwise
such a literal has become that reference and such a result is gone, and all the rest is
as it was. -/
theorem decode_encode {t : Task} (h : t.Fits) :
    ∃ t', Json.decode ofJson t.toJson.render = .ok t' ∧ readTask t.toJson.render = .ok t' ∧
      (t' = t ↔ (∀ side id, ¬ (t.operand side).Mimics id) ∧
        ∀ x, t.result = some x → x.isFinite = true) ∧
      (∀ side, (t.operand side).Arrives (t'.operand side)) ∧
      t'.result = t.result.filter Number.isFinite ∧
      t' = { t with left := t'.left, right := t'.right, result := t'.result } := by
  have hwords := h.toFitsWords
  have harrives : ∀ side, (t.operand side).Arrives (t.reread.operand side) := fun side => by
    cases side with
    | left => exact Operand.arrives_reread (h.operand .left)
    | right => exact Operand.arrives_reread (h.operand .right)
  refine ⟨t.reread, ?_, readTask_render hwords, ⟨fun hsame => ⟨fun side => ?_, fun x hx => ?_⟩,
    fun ⟨hoperands, hresult⟩ => ?_⟩, harrives, rfl, rfl⟩
  · rw [Json.decode_render ofJson (writable_toJson hwords), ofJson_toJson hwords]
  · rw [← (harrives side).eq_iff, hsame]
  · have hkept : t.result.filter Number.isFinite = t.result := congrArg Task.result hsame
    rw [hx, Option.filter_some] at hkept
    exact Decidable.not_not.1 fun hinfinite => by
      rw [if_neg hinfinite] at hkept
      cases hkept
  · exact reread_eq_self ((harrives .left).eq_iff.2 (hoperands .left))
      ((harrives .right).eq_iff.2 (hoperands .right)) hresult

/-- The literal becomes a reference to task 7 and the result is gone, while the error
comes back with its quotes, its line feed and its accent. -/
theorem decode_encode_mimic :
    let t : Task := ⟨-3, 9, .literal "task+007", .pending (-2), .divide, 1000, .error, some .nan,
      some "a \"quoted\"\nerror, été"⟩
    let t' : Task := { t with left := .pending 7, result := none }
    t.Fits ∧ Json.decode ofJson t.toJson.render = .ok t' ∧ readTask t.toJson.render = .ok t' := by
  intro t t'
  have hfits : t.Fits := by
    refine { id := by decide, expressionId := by decide, durationMs := by decide, operand := ?_ }
    rintro (_ | _) id hid
    · cases hid
    · cases hid
      decide
  obtain ⟨u, hdecode, hread, -, harrives, hresult, hrest⟩ := decode_encode hfits
  have hleft : u.left = .pending 7 := (harrives .left).eq_pending ⟨"+007", rfl, by decide⟩
  have hright : u.right = .pending (-2) :=
    (harrives .right).eq_iff.2 fun id ⟨rest, hliteral, _⟩ => nomatch hliteral
  have hu : u = t' := by
    rw [hrest, hleft, hright, hresult]
    rfl
  rw [hu] at hdecode hread
  exact ⟨hfits, hdecode, hread⟩

end Task

end Reckoner
