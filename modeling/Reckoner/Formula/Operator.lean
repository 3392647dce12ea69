/-
Reckoner.Formula.Operator — the four operators of a formula.
-/
namespace Reckoner

/-- A binary operator. -/
inductive Operator where
  | add
  | subtract
  | multiply
  | divide
deriving DecidableEq

namespace Operator

/-- The character an operator is written as. -/
def symbol : Operator → Char
  | .add => '+'
  | .subtract => '-'
  | .multiply => '*'
  | .divide => '/'

/-- The operator a character stands for. -/
def ofChar? : Char → Option Operator
  | '+' => some .add
  | '-' => some .subtract
  | '*' => some .multiply
  | '/' => some .divide
  | _ => none

/-- The symbol as a text. -/
def text (op : Operator) : String := String.ofList [op.symbol]

/-- The operator a whole token stands for: `+` is one, `+1` is none. -/
def ofToken? (token : String) : Option Operator :=
  match token.toList with
  | [c] => ofChar? c
  | _ => none

/-- How strongly an operator binds its operands. -/
def precedence : Operator → Nat
  | .add => 1
  | .subtract => 1
  | .multiply => 2
  | .divide => 2

@[simp] theorem ofChar?_symbol (op : Operator) : ofChar? op.symbol = some op := by
  cases op <;> rfl

theorem eq_symbol_of_ofChar? {c : Char} {op : Operator} (h : ofChar? c = some op) :
    c = op.symbol := by
  unfold ofChar? at h
  split at h <;> cases h <;> rfl

@[simp] theorem ofToken?_text (op : Operator) : ofToken? op.text = some op := by
  cases op <;> rfl

theorem eq_text_of_ofToken? {token : String} {op : Operator} (h : ofToken? token = some op) :
    token = op.text := by
  unfold ofToken? at h
  split at h
  · next c hc => rw [text, ← eq_symbol_of_ofChar? h, ← hc, String.ofList_toList]
  · cases h

end Operator

end Reckoner
