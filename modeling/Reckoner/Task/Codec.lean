/-
Reckoner.Task.Codec — tasks and reports as JSON.

A task is an object of its fields, of which `result` and `error` are left out
when there is none. Reading also takes `operation_time` for the name of the
duration, and an array of the fields in their order.

  1. Tasks
  2. Reports
-/
import Reckoner.Json.Record
import Reckoner.Task.Basic

namespace Reckoner

open Json (Slot asRecord asSigned64 asUnsigned64 asNumber asText asOptional asWord)

/-- The member of an optional value: none if there is no value. -/
def Json.optionalMember {α : Type} (name : String) (toJson : α → Json) :
    Option α → List (String × Json)
  | some a => [(name, toJson a)]
  | none => []

/-! ## 1. Tasks -/

namespace Task

/-- A task as JSON. -/
def toJson (t : Task) : Json :=
  .ofMembers <|
    [("id", .integer t.id),
     ("expression_id", .integer t.expressionId),
     ("arg1", .text t.left.text),
     ("arg2", .text t.right.text),
     ("operation", .text t.operator.text),
     ("operation_time_ms", .integer t.durationMs),
     ("status", .text t.status.word)] ++
    Json.optionalMember "result" .ofNumber t.result ++
    Json.optionalMember "error" .text t.error

/-- An operand, which is written as a string. -/
def asOperand (j : Json) : Except Json.Fault Operand := (asText j).map Operand.ofText

/-- A task some of whose fields have been read. -/
structure Draft where
  id : Option Int := none
  expressionId : Option Int := none
  left : Option Operand := none
  right : Option Operand := none
  operator : Option Operator := none
  durationMs : Option Nat := none
  status : Option Status := none
  result : Option (Option Number) := none
  error : Option (Option String) := none

/-- The fields of a task in their order. -/
def slots : List (Slot Draft) :=
  [.once ["id"] Draft.id (fun v d => { d with id := some v }) asSigned64,
   .once ["expression_id"] Draft.expressionId
     (fun v d => { d with expressionId := some v }) asSigned64,
   .once ["arg1"] Draft.left (fun v d => { d with left := some v }) asOperand,
   .once ["arg2"] Draft.right (fun v d => { d with right := some v }) asOperand,
   .once ["operation"] Draft.operator
     (fun v d => { d with operator := some v }) (asWord Operator.ofToken?),
   .once ["operation_time_ms", "operation_time"] Draft.durationMs
     (fun v d => { d with durationMs := some v }) asUnsigned64,
   .once ["status"] Draft.status (fun v d => { d with status := some v })
     (asWord Status.ofWord?),
   .once ["result"] Draft.result (fun v d => { d with result := some v })
     (asOptional asNumber),
   .once ["error"] Draft.error (fun v d => { d with error := some v }) (asOptional asText)]

/-- The task of a draft; all fields but the result and the error are needed. -/
def Draft.finish? (d : Draft) : Option Task := do
  let id ← d.id
  let expressionId ← d.expressionId
  let left ← d.left
  let right ← d.right
  let operator ← d.operator
  let durationMs ← d.durationMs
  let status ← d.status
  pure ⟨id, expressionId, left, right, operator, durationMs, status,
    d.result.getD none, d.error.getD none⟩

/-- A task out of JSON. -/
def ofJson : Json → Except Json.Fault Task := asRecord slots {} Draft.finish?

end Task

/-! ## 2. Reports -/

namespace Report

/-- A report as JSON. -/
def toJson (r : Report) : Json :=
  .ofMembers <|
    [("id", .integer r.id), ("result", .ofNumber r.result)] ++
    Json.optionalMember "error" .text r.error

/-- A report some of whose fields have been read. -/
structure Draft where
  id : Option Int := none
  result : Option Number := none
  error : Option (Option String) := none

/-- The fields of a report in their order. -/
def slots : List (Slot Draft) :=
  [.once ["id"] Draft.id (fun v d => { d with id := some v }) asSigned64,
   .once ["result"] Draft.result (fun v d => { d with result := some v }) asNumber,
   .once ["error"] Draft.error (fun v d => { d with error := some v }) (asOptional asText)]

/-- The report of a draft; without a result it is zero. -/
def Draft.finish? (d : Draft) : Option Report :=
  d.id.map fun id => ⟨id, d.result.getD .zero, d.error.getD none⟩

/-- A report out of JSON. -/
def ofJson : Json → Except Json.Fault Report := asRecord slots {} Draft.finish?

end Report

end Reckoner
