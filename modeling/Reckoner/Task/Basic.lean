/-
Reckoner.Task.Basic — tasks, and the reports on them.
-/
import Reckoner.Formula.Plan
import Reckoner.Status
import Reckoner.Task.Operand
import Reckoner.Timings

namespace Reckoner

/-- One binary operation that a worker carries out. -/
structure Task where
  id : Int
  expressionId : Int
  left : Operand
  right : Operand
  operator : Operator
  /-- The milliseconds the operation is made to take. -/
  durationMs : Nat
  status : Status
  result : Option Number := none
  error : Option String := none
deriving DecidableEq

/-- The task waits for a worker, and for nothing else. -/
def Task.isRunnable (t : Task) : Bool :=
  t.status = .pending && t.left.isLiteral && t.right.isLiteral

/-- What a worker says about a task it carried out. -/
structure Report where
  id : Int
  result : Number := .zero
  error : Option String := none
deriving DecidableEq

namespace Report

/-- The report of a value. -/
def success (id : Int) (result : Number) : Report := ⟨id, result, none⟩

/-- The report of an error. -/
def failure (id : Int) (error : String) : Report := ⟨id, .zero, some error⟩

/-- The error of a report; an empty one counts as none. -/
def errorText? (r : Report) : Option String := r.error.filter (· ≠ "")

end Report

namespace Plan

/-- The operand of a task whose plan's first task has the id `first`. -/
def Source.operand (first : Int) : Source → Operand
  | .literal text => .literal text
  | .node index => .pending (first + index)

/-- The tasks of some nodes, the first of which has index `index`. -/
def tasksFrom (expressionId first : Int) (timings : Timings) (index : Nat) :
    List Node → List Task
  | [] => []
  | n :: ns =>
    { id := first + index
      expressionId
      left := n.left.operand first
      right := n.right.operand first
      operator := n.operator
      durationMs := timings.cost n.operator
      status := .pending } :: tasksFrom expressionId first timings (index + 1) ns

/-- The tasks of a plan under consecutive ids from `first`. -/
def tasks (p : Plan) (expressionId first : Int) (timings : Timings) : List Task :=
  tasksFrom expressionId first timings 0 p.nodes

end Plan

end Reckoner
