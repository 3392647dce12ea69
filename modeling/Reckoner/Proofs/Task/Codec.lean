/-
Reckoner.Proofs.Task.Codec — tasks and reports survive their JSON.

An object whose members stand in the order of the fields fills them one by one, each
with what its decoder makes of the value. So a task is read back as it was written,
but for two of its parts: an operand is what its text reads as, and a result that is
no finite number is left out (`Task.ofJson_toJson`). A report with a finite result is
read back as it was (`Report.ofJson_toJson`).

  1. Filling a record
  2. The operands of a task
  3. Tasks
  4. Reports
-/
import Reckoner.Proofs.Json.RoundTrip
import Reckoner.Task.Codec
import Reckoner.Worker.Remote

namespace Reckoner

open Json (Slot)

/-! ## 1. Filling a record -/

namespace Json

variable {σ α : Type}

/-- A member fills the slot of its name, and the others follow. -/
theorem fillByName_cons {slots : List (Slot σ)} {slot : Slot σ} {s s' : σ} {name : String}
    {j : Json} {ms : Members}
    (hslot : slots.find? (·.names.contains name) = some slot) (hput : slot.put j s = .ok s') :
    fillByName slots s (.cons (some name) j ms) = fillByName slots s' ms := by
  rw [fillByName]
  simp only [hslot, hput]

/-- A slot that is still empty takes what its decoder makes of the value. -/
theorem put_once {names : List String} {get : σ → Option α} {set : α → σ → σ}
    {decode : Json → Except Fault α} {s : σ} {j : Json} {a : α} (hempty : (get s).isSome = false)
    (hdecode : decode j = .ok a) : (Slot.once names get set decode).put j s = .ok (set a s) := by
  rw [Slot.once]
  simp only [hempty, hdecode, Bool.false_eq_true, if_false]
  rfl

/-- An object whose members fill a record is read as that record. -/
theorem asRecord_ofMembers {slots : List (Slot σ)} {empty s : σ} {finish : σ → Option α}
    {ms : List (String × Json)} {a : α} (hfill : fillByName slots empty (.ofList ms) = .ok s)
    (hfinish : finish s = some a) : asRecord slots empty finish (ofMembers ms) = .ok a := by
  rw [ofMembers, asRecord]
  simp only [hfill, Except.bind, hfinish]

theorem asSigned64_integer {n : Int} (h : Text.fitsSigned64 n = true) :
    asSigned64 (.integer n) = .ok n := by
  rw [asSigned64, asIntegerIn, if_pos (of_decide_eq_true h)]

theorem asUnsigned64_integer {n : Nat} (h : n < 2 ^ 64) : asUnsigned64 (.integer n) = .ok n := by
  rw [asUnsigned64, asIntegerIn, if_pos ⟨Int.natCast_nonneg n, by omega⟩]
  rfl

theorem asWord_text {ofWord? : String → Option α} {s : String} {a : α} (h : ofWord? s = some a) :
    asWord ofWord? (.text s) = .ok a := by
  rw [asWord, h]

theorem asOptional_ofNumber (x : Number) :
    asOptional asNumber (ofNumber x) = .ok (if x.isFinite then some x else none) := by
  rw [ofNumber]
  split <;> rfl

/-- An optional member is that of the value there is. -/
theorem mem_optionalMember {name : String} {toJson : α → Json} {o : Option α}
    {m : String × Json} (h : m ∈ optionalMember name toJson o) :
    ∃ a, o = some a ∧ m = (name, toJson a) := by
  cases o with
  | none => cases h
  | some a => exact ⟨a, rfl, List.mem_singleton.1 h⟩

theorem names_optionalMember (name : String) (toJson : α → Json) (o : Option α) :
    ((optionalMember name toJson o).map (·.1)).Sublist [name] := by
  cases o with
  | none => exact List.nil_sublist _
  | some a => exact List.Sublist.refl _

end Json

/-! ## 2. The operands of a task -/

namespace Operand

/-- The operand that the text of an operand reads as. -/
def reread (o : Operand) : Operand := ofText o.text

theorem reread_literal {s : String} (h : reference? s.toList = none) :
    (literal s).reread = literal s := by
  rw [reread, text, ofText, h]

theorem asOperand_text (o : Operand) : Task.asOperand (.text o.text) = .ok o.reread := rfl

end Operand

/-! ## 3. Tasks -/

namespace Task

/-- The numbers of a task fit the words that they are kept in. -/
structure FitsWords (t : Task) : Prop where
  id : Text.fitsSigned64 t.id = true
  expressionId : Text.fitsSigned64 t.expressionId = true
  durationMs : t.durationMs < 2 ^ 64

/-- The task as it is read back: its operands are read from their texts, and only a
finite result is kept. -/
def reread (t : Task) : Task :=
  { t with
    left := t.left.reread
    right := t.right.reread
    result := t.result.filter Number.isFinite }

/-- A task is read back as it is if its operands are, and its result is finite. -/
theorem reread_eq_self {t : Task} (hleft : t.left.reread = t.left)
    (hright : t.right.reread = t.right) (hresult : ∀ x, t.result = some x → x.isFinite = true) :
    t.reread = t := by
  have hkept : t.result.filter Number.isFinite = t.result := by
    cases h : t.result with
    | none => rfl
    | some x => rw [Option.filter_some, if_pos (hresult x h)]
  rw [reread, hleft, hright, hkept]

/-- The members that every task has, in their order. -/
def members (t : Task) : List (String × Json) :=
  [("id", .integer t.id),
   ("expression_id", .integer t.expressionId),
   ("arg1", .text t.left.text),
   ("arg2", .text t.right.text),
   ("operation", .text t.operator.text),
   ("operation_time_ms", .integer t.durationMs),
   ("status", .text t.status.word)]

/-- The members that a task has if there is something to say. -/
def optionalMembers (t : Task) : List (String × Json) :=
  Json.optionalMember "result" .ofNumber t.result ++ Json.optionalMember "error" .text t.error

theorem toJson_eq (t : Task) : t.toJson = .ofMembers (t.members ++ t.optionalMembers) := by
  rw [toJson, List.append_assoc]
  rfl

/-- What is known of a task once the members that are always there have been read. -/
def draft (t : Task) : Draft where
  id := some t.id
  expressionId := some t.expressionId
  left := some t.left.reread
  right := some t.right.reread
  operator := some t.operator
  durationMs := some t.durationMs
  status := some t.status

theorem fill_members {t : Task} (h : t.FitsWords) (rest : List (String × Json)) :
    Json.fillByName slots {} (.ofList (t.members ++ rest)) =
      Json.fillByName slots t.draft (.ofList rest) := by
  simp only [members, List.cons_append, List.nil_append, Json.Members.ofList]
  rw [Json.fillByName_cons rfl (Json.put_once rfl (Json.asSigned64_integer h.id)),
    Json.fillByName_cons rfl (Json.put_once rfl (Json.asSigned64_integer h.expressionId)),
    Json.fillByName_cons rfl (Json.put_once rfl t.left.asOperand_text),
    Json.fillByName_cons rfl (Json.put_once rfl t.right.asOperand_text),
    Json.fillByName_cons rfl (Json.put_once rfl (Json.asWord_text t.operator.ofToken?_text)),
    Json.fillByName_cons rfl (Json.put_once rfl (Json.asUnsigned64_integer h.durationMs)),
    Json.fillByName_cons rfl (Json.put_once rfl (Json.asWord_text t.status.ofWord?_word))]
  rfl

/-- What is known of a task once all its members have been read. -/
def fullDraft (t : Task) : Draft :=
  { t.draft with
    result := t.result.map fun x => if x.isFinite then some x else none
    error := t.error.map some }

theorem fill_optionalMembers (t : Task) :
    Json.fillByName slots t.draft (.ofList t.optionalMembers) = .ok t.fullDraft := by
  rw [fullDraft, optionalMembers]
  cases t.result with
  | none =>
    cases t.error with
    | none => rfl
    | some message => exact Json.fillByName_cons rfl (Json.put_once rfl rfl)
  | some x =>
    refine (Json.fillByName_cons rfl (Json.put_once rfl (Json.asOptional_ofNumber x))).trans ?_
    cases t.error with
    | none => rfl
    | some message => exact Json.fillByName_cons rfl (Json.put_once rfl rfl)

theorem finish?_fullDraft (t : Task) : t.fullDraft.finish? = some t.reread := by
  have hresult : (t.result.map fun x => if x.isFinite then some x else none).getD none =
      t.result.filter Number.isFinite := by
    cases t.result with
    | none => rfl
    | some x => rfl
  have herror : (t.error.map some).getD none = t.error := by
    cases t.error with
    | none => rfl
    | some message => rfl
  have hfinish : t.fullDraft.finish? = some
      { t with
        left := t.left.reread
        right := t.right.reread
        result := (t.result.map fun x => if x.isFinite then some x else none).getD none
        error := (t.error.map some).getD none } := rfl
  rw [hfinish, hresult, herror]
  rfl

/-- A task is read back from its JSON, with its operands read from their texts. -/
theorem ofJson_toJson {t : Task} (h : t.FitsWords) : ofJson t.toJson = .ok t.reread := by
  rw [toJson_eq]
  refine Json.asRecord_ofMembers ?_ t.finish?_fullDraft
  rw [fill_members h, fill_optionalMembers]

theorem writable_toJson {t : Task} (h : t.FitsWords) : t.toJson.Writable := by
  have hduration : (Json.integer t.durationMs).Writable := by
    have hsmall := h.durationMs
    exact ⟨by omega, by omega⟩
  rw [toJson_eq]
  refine Json.writable_ofMembers fun m hm => ?_
  rcases List.mem_append.1 hm with hm | hm
  · simp only [members, List.mem_cons, List.not_mem_nil, or_false] at hm
    rcases hm with rfl | rfl | rfl | rfl | rfl | rfl | rfl
    · exact Json.writable_integer h.id
    · exact Json.writable_integer h.expressionId
    · trivial
    · trivial
    · trivial
    · exact hduration
    · trivial
  · rcases List.mem_append.1 hm with hm | hm
    · obtain ⟨x, -, rfl⟩ := Json.mem_optionalMember hm
      exact Json.writable_ofNumber x
    · obtain ⟨message, -, rfl⟩ := Json.mem_optionalMember hm
      trivial

theorem depth_toJson (t : Task) : t.toJson.depth ≤ 1 := by
  rw [toJson_eq]
  refine Json.depth_ofMembers fun m hm => ?_
  rcases List.mem_append.1 hm with hm | hm
  · simp only [members, List.mem_cons, List.not_mem_nil, or_false] at hm
    rcases hm with rfl | rfl | rfl | rfl | rfl | rfl | rfl <;> exact Nat.le_refl 0
  · rcases List.mem_append.1 hm with hm | hm
    · obtain ⟨x, -, rfl⟩ := Json.mem_optionalMember hm
      exact Json.depth_ofNumber x
    · obtain ⟨message, -, rfl⟩ := Json.mem_optionalMember hm
      exact Nat.le_refl 0

/-- No name comes twice among the members of a task. -/
theorem withLastMembers_toJson (t : Task) : t.toJson.withLastMembers = t.toJson := by
  rw [toJson_eq]
  have hnames : ((t.members ++ t.optionalMembers).map (·.1)).Sublist
      ["id", "expression_id", "arg1", "arg2", "operation", "operation_time_ms", "status",
        "result", "error"] := by
    rw [optionalMembers, List.map_append, List.map_append]
    exact (List.Sublist.refl (t.members.map (·.1))).append
      ((Json.names_optionalMember "result" _ _).append (Json.names_optionalMember "error" _ _))
  exact Json.withLastMembers_ofMembers (List.Nodup.sublist hnames (by decide))

end Task

/-- The task that a worker reads out of the text of a task. -/
theorem readTask_render {t : Task} (h : t.FitsWords) : readTask t.toJson.render = .ok t.reread := by
  have hdepth : t.toJson.depth < 128 := Nat.lt_of_le_of_lt t.depth_toJson (by decide)
  rw [readTask, Json.ofText?_render (Task.writable_toJson h) hdepth]
  dsimp only
  rw [t.withLastMembers_toJson, Task.ofJson_toJson h]

/-! ## 4. Reports -/

namespace Report

/-- The members that every report has, in their order. -/
def members (r : Report) : List (String × Json) :=
  [("id", .integer r.id), ("result", .ofNumber r.result)]

theorem toJson_eq (r : Report) :
    r.toJson = .ofMembers (r.members ++ Json.optionalMember "error" .text r.error) := rfl

/-- A report with a finite result is read back from its JSON. -/
theorem ofJson_toJson {r : Report} (hid : Text.fitsSigned64 r.id = true)
    (hresult : r.result.isFinite = true) : ofJson r.toJson = .ok r := by
  have hnumber : Json.asNumber (.ofNumber r.result) = .ok r.result := by
    rw [Json.ofNumber, if_pos hresult]
    rfl
  have hfill : Json.fillByName slots {} (.ofList
      (r.members ++ Json.optionalMember "error" .text r.error)) =
      .ok { id := some r.id, result := some r.result, error := r.error.map some } := by
    simp only [members, List.cons_append, List.nil_append, Json.Members.ofList]
    rw [Json.fillByName_cons rfl (Json.put_once rfl (Json.asSigned64_integer hid)),
      Json.fillByName_cons rfl (Json.put_once rfl hnumber)]
    cases r.error with
    | none => rfl
    | some message => exact Json.fillByName_cons rfl (Json.put_once rfl rfl)
  rw [toJson_eq]
  refine Json.asRecord_ofMembers hfill ?_
  obtain ⟨id, result, error⟩ := r
  cases error <;> rfl

theorem writable_toJson {r : Report} (hid : Text.fitsSigned64 r.id = true) :
    r.toJson.Writable := by
  rw [toJson_eq]
  refine Json.writable_ofMembers fun m hm => ?_
  rcases List.mem_append.1 hm with hm | hm
  · simp only [members, List.mem_cons, List.not_mem_nil, or_false] at hm
    rcases hm with rfl | rfl
    · exact Json.writable_integer hid
    · exact Json.writable_ofNumber r.result
  · obtain ⟨message, -, rfl⟩ := Json.mem_optionalMember hm
    trivial

/-- The text of a report with a finite result decodes to the report. -/
theorem decode_render {r : Report} (hid : Text.fitsSigned64 r.id = true)
    (hresult : r.result.isFinite = true) : Json.decode ofJson r.toJson.render = .ok r := by
  rw [Json.decode_render ofJson (writable_toJson hid), ofJson_toJson hid hresult]

end Report

end Reckoner
