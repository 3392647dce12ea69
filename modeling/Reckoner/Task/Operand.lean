/-
Reckoner.Task.Operand — the two sides of a task.

An operand is a literal, which keeps its text, or the result of another task.
Both are written as text; `task` followed by an id is a reference, and any
other text is a literal.
-/
import Reckoner.Number.Fixed
import Reckoner.Text.Integer

namespace Reckoner

/-- One side of a task. -/
inductive Operand where
  | literal (text : String)
  | pending (task : Int)
deriving DecidableEq

namespace Operand

/-- The id in a text that refers to a task. -/
def reference? : List Char → Option Int
  | 't' :: 'a' :: 's' :: 'k' :: rest => Text.signed64Chars? rest
  | _ => none

/-- The operand a text stands for. -/
def ofText (s : String) : Operand :=
  match reference? s.toList with
  | some id => .pending id
  | none => .literal s

/-- The text of an operand. -/
def text : Operand → String
  | .literal s => s
  | .pending id => "task" ++ Text.integer id

/-- The literal that takes the place of a reference once its value is known:
the value with six decimal places. -/
def resolved (value : Number) : Operand := .literal value.sixPlaces

/-- The operand needs no other task. -/
def isLiteral : Operand → Bool
  | .literal _ => true
  | .pending _ => false

/-- The task the operand waits for. -/
def dependency? : Operand → Option Int
  | .literal _ => none
  | .pending id => some id

end Operand

end Reckoner
