/-
Reckoner.Expression — the formulas that users hand in, and what becomes of them.

  1. Outcomes
  2. Expressions
  3. Expressions as JSON
-/
import Reckoner.Task.Codec

namespace Reckoner

/-! ## 1. Outcomes -/

/-- How an expression ended. -/
inductive Outcome where
  | done (value : Number)
  | failed (result : Number) (error : String)
deriving DecidableEq

namespace Outcome

/-- The status an expression ends in. -/
def status : Outcome → Status
  | .done _ => .done
  | .failed _ _ => .error

/-- The number recorded for the expression. -/
def result : Outcome → Number
  | .done value => value
  | .failed result _ => result

/-- The error recorded for the expression. -/
def error? : Outcome → Option String
  | .done _ => none
  | .failed _ error => some error

end Outcome

/-! ## 2. Expressions -/

/-- A formula with its owner and where it stands. -/
structure Expression where
  id : Int
  text : String
  status : Status := .pending
  result : Number := .zero
  error : Option String := none
  owner : Int
deriving DecidableEq

namespace Expression

/-- The expression has ended. -/
def isFinished (e : Expression) : Bool := e.status.isFinal

/-- The expression once one of its tasks is being worked out. -/
def started (e : Expression) : Expression :=
  if e.status = .pending then { e with status := .computing } else e

/-- The expression once it has ended; one that has ended before stays as it is. -/
def ended (e : Expression) (o : Outcome) : Expression :=
  if e.isFinished then e
  else { e with status := o.status, result := o.result, error := o.error? }

/-! ## 3. Expressions as JSON -/

open Json (Slot asRecord asSigned64 asNumber asText asOptional asWord)

/-- An expression as JSON. Its owner is never shown. -/
def toJson (e : Expression) : Json :=
  .ofMembers <|
    [("id", .integer e.id),
     ("expression", .text e.text),
     ("status", .text e.status.word),
     ("result", .ofNumber e.result)] ++
    Json.optionalMember "error" .text e.error

/-- An expression some of whose fields have been read. -/
structure Draft where
  id : Option Int := none
  text : Option String := none
  status : Option Status := none
  result : Option Number := none
  error : Option (Option String) := none
  owner : Option Int := none

/-- The fields of an expression in their order. -/
def slots : List (Slot Draft) :=
  [.once ["id"] Draft.id (fun v d => { d with id := some v }) asSigned64,
   .once ["expression"] Draft.text (fun v d => { d with text := some v }) asText,
   .once ["status"] Draft.status (fun v d => { d with status := some v })
     (asWord Status.ofWord?),
   .once ["result"] Draft.result (fun v d => { d with result := some v }) asNumber,
   .once ["error"] Draft.error (fun v d => { d with error := some v }) (asOptional asText),
   .once ["user_id"] Draft.owner (fun v d => { d with owner := some v }) asSigned64]

/-- The expression of a draft; the error and the owner may be missing. -/
def Draft.finish? (d : Draft) : Option Expression := do
  let id ← d.id
  let text ← d.text
  let status ← d.status
  let result ← d.result
  pure ⟨id, text, status, result, d.error.getD none, d.owner.getD 0⟩

/-- An expression out of JSON. -/
def ofJson : Json → Except Json.Fault Expression := asRecord slots {} Draft.finish?

end Expression

end Reckoner
