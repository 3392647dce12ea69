/-
Reckoner.Worker.Evaluate — carrying out one task.
-/
import Reckoner.Number.Arithmetic
import Reckoner.Task.Basic
import Reckoner.Text.Blank

namespace Reckoner

/-- Why a task has no value. -/
inductive EvalError where
  | divisionByZero
  /-- An operand still refers to another task. -/
  | unresolvedOperand (task : Int)
  | invalidOperand (text : String)
  /-- The value is no finite number. -/
  | overflow
deriving DecidableEq

/-- The error in words. -/
def EvalError.message : EvalError → String
  | .divisionByZero => "division by zero"
  | .unresolvedOperand id => "unresolved operand: " ++ (Operand.pending id).text
  | .invalidOperand text => "invalid operand: " ++ text
  | .overflow => "result overflow"

/-- The value of an operand; blanks around a literal do not matter. -/
def Operand.value : Operand → Except EvalError Number
  | .pending id => .error (.unresolvedOperand id)
  | .literal text =>
    match Number.ofText? (Text.trim text) with
    | some x => .ok x
    | none => .error (.invalidOperand text)

/-- The result of an operator on two numbers; only finite results count. -/
def Operator.apply (op : Operator) (a b : Number) : Except EvalError Number :=
  if op = .divide ∧ b.isZero then .error .divisionByZero
  else
    let value := match op with
      | .add => a.add b
      | .subtract => a.sub b
      | .multiply => a.mul b
      | .divide => a.div b
    if value.isFinite then .ok value else .error .overflow

/-- The value of an operation; the left operand is read first. -/
def evaluateOperands (left : Operand) (op : Operator) (right : Operand) :
    Except EvalError Number :=
  match left.value with
  | .error e => .error e
  | .ok a =>
    match right.value with
    | .error e => .error e
    | .ok b => op.apply a b

/-- The value of a task. -/
def Task.evaluate (t : Task) : Except EvalError Number :=
  evaluateOperands t.left t.operator t.right

/-- The report on a task once it has been carried out. -/
def Task.execute (t : Task) : Report :=
  match t.evaluate with
  | .ok value => .success t.id value
  | .error e => .failure t.id e.message

end Reckoner
