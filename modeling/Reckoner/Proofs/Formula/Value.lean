/-
Reckoner.Proofs.Formula.Value — what a formula is worth.

A leaf is handed to the operation above it as its text, and an inner tree as the
text of its value with six decimal places, so every value but the last is
rounded on its way up. `value` is defined on the tree alone; it knows nothing of
tasks, of workers or of the order in which the operations are done.

  1. The value of a tree
  2. Operands that are numbers
  3. Trees that have a value, and trees that have none
  4. Formulas without operators
-/
import Reckoner.Proofs.Formula.Tree
import Reckoner.Proofs.Number.Text
import Reckoner.Worker.Evaluate

namespace Reckoner

/-! ## 1. The value of a tree -/

namespace Tree

/-- What a tree is as an operand: a leaf its text, an operation its value with
six decimal places. -/
def operand? : Tree → Except EvalError Operand
  | leaf text => .ok (.literal text)
  | node op l r => do
    let a ← l.operand?
    let b ← r.operand?
    let x ← evaluateOperands a op b
    return .resolved x

/-- The value of a tree: a leaf the number it spells, an operation what its
operator makes of its two operands. -/
def value : Tree → Except EvalError Number
  | leaf text =>
    match Number.ofText? text with
    | some x => .ok x
    | none => .error (.invalidOperand text)
  | node op l r => do
    let a ← l.operand?
    let b ← r.operand?
    evaluateOperands a op b

/-- An operation of the tree whose operands have values, but whose own operator
gives none. -/
def FailsWith (t : Tree) (e : EvalError) : Prop :=
  ∃ op l r a b x y, (node op l r).Within t ∧ l.operand? = .ok a ∧ r.operand? = .ok b ∧
    a.value = .ok x ∧ b.value = .ok y ∧ op.apply x y = .error e

theorem operand?_node (op : Operator) (l r : Tree) :
    (node op l r).operand? = (node op l r).value.map .resolved := by
  rw [operand?, value]
  cases l.operand? with
  | error e => rfl
  | ok a =>
    cases r.operand? with
    | error e => rfl
    | ok b =>
      show (evaluateOperands a op b).bind _ = (evaluateOperands a op b).map _
      cases evaluateOperands a op b <;> rfl

theorem value_node_of_operands {op : Operator} {l r : Tree} {a b : Operand}
    (hl : l.operand? = .ok a) (hr : r.operand? = .ok b) :
    (node op l r).value = evaluateOperands a op b := by
  rw [value, hl, hr]
  rfl

theorem exists_operands_of_value {op : Operator} {l r : Tree} {x : Number}
    (h : (node op l r).value = .ok x) :
    ∃ a b, l.operand? = .ok a ∧ r.operand? = .ok b ∧ evaluateOperands a op b = .ok x := by
  rw [value] at h
  cases hl : l.operand? with
  | error e =>
    rw [hl] at h
    cases h
  | ok a =>
    cases hr : r.operand? with
    | error e =>
      rw [hl, hr] at h
      cases h
    | ok b =>
      rw [hl, hr] at h
      exact ⟨a, b, rfl, rfl, h⟩

end Tree

/-! ## 2. Operands that are numbers -/

/-- An operator gives a finite number, or says why it does not. -/
theorem Operator.apply_cases (op : Operator) (a b : Number) :
    (∃ x, op.apply a b = .ok x ∧ x.isFinite = true) ∨ op.apply a b = .error .divisionByZero ∨
      op.apply a b = .error .overflow := by
  unfold Operator.apply
  split
  · exact .inr (.inl rfl)
  · extract_lets value
    split
    · next hfinite => exact .inl ⟨value, rfl, hfinite⟩
    · exact .inr (.inr rfl)

theorem Operator.isFinite_of_apply {op : Operator} {a b x : Number} (h : op.apply a b = .ok x) :
    x.isFinite = true := by
  rcases op.apply_cases a b with ⟨y, hy, hfinite⟩ | herr | herr
  · rw [hy] at h
    cases h
    exact hfinite
  · rw [herr] at h
    cases h
  · rw [herr] at h
    cases h

theorem evaluateOperands_eq_apply {a b : Operand} {x y : Number} (ha : a.value = .ok x)
    (hb : b.value = .ok y) (op : Operator) : evaluateOperands a op b = op.apply x y := by
  rw [evaluateOperands, ha, hb]

theorem isFinite_of_evaluateOperands {a b : Operand} {op : Operator} {x : Number}
    (h : evaluateOperands a op b = .ok x) : x.isFinite = true := by
  rw [evaluateOperands] at h
  split at h
  · cases h
  · split at h
    · cases h
    · exact Operator.isFinite_of_apply h

theorem Operand.value_literal {s : String} {x : Number} (h : Number.ofText? s = some x) :
    (Operand.literal s).value = .ok x := by
  rw [Operand.value, Number.trim_eq_self_of_ofText? h, h]

/-- The text that takes the place of a reference is a number again. -/
theorem Operand.value_resolved (x : Number) : (Operand.resolved x).value = .ok x.atSixPlaces :=
  Operand.value_literal (Number.ofText?_sixPlaces x)

namespace Tree

theorem Numeric.exists_ofText? {text : String} (h : (leaf text).Numeric) :
    ∃ x, Number.ofText? text = some x ∧ x.isFinite = true := by
  simp only [Numeric, Plan.isLiteral, Bool.and_eq_true, Option.any_eq_true_iff_get] at h
  obtain ⟨-, hsome, hfinite⟩ := h
  exact ⟨_, (Option.some_get hsome).symm, hfinite⟩

/-- A tree that can be handed on has a value, and what it hands to the operation above it is
a number. -/
theorem Numeric.exists_values_of_operand {t : Tree} (h : t.Numeric) {a : Operand}
    (ha : t.operand? = .ok a) : ∃ x y, t.value = .ok x ∧ a.value = .ok y := by
  cases t with
  | leaf text =>
    cases ha
    obtain ⟨x, hx, -⟩ := h.exists_ofText?
    exact ⟨x, x, by rw [value, hx], Operand.value_literal hx⟩
  | node op l r =>
    rw [operand?_node] at ha
    cases hvalue : (node op l r).value with
    | error e =>
      rw [hvalue] at ha
      cases ha
    | ok x =>
      rw [hvalue] at ha
      cases ha
      exact ⟨x, _, rfl, Operand.value_resolved x⟩

/-! ## 3. Trees that have a value, and trees that have none -/

theorem Numeric.within {s t : Tree} (h : s.Within t) (ht : t.Numeric) : s.Numeric := by
  induction h with
  | refl => exact ht
  | left op r _ ih => exact ih ht.1
  | right op l _ ih => exact ih ht.2

/-- A tree that has a value has one everywhere. -/
theorem Numeric.exists_value_within {s t : Tree} (ht : t.Numeric) {x : Number}
    (h : t.value = .ok x) (hs : s.Within t) : ∃ y, s.value = .ok y := by
  induction hs generalizing x with
  | refl => exact ⟨x, h⟩
  | left op r _ ih =>
    obtain ⟨a, b, ha, -, -⟩ := exists_operands_of_value h
    obtain ⟨y, -, hy, -⟩ := ht.1.exists_values_of_operand ha
    exact ih ht.1 hy
  | right op l _ ih =>
    obtain ⟨a, b, -, hb, -⟩ := exists_operands_of_value h
    obtain ⟨y, -, hy, -⟩ := ht.2.exists_values_of_operand hb
    exact ih ht.2 hy

/-- A tree with an operation that fails has no value there. -/
theorem FailsWith.exists_within {t : Tree} {e : EvalError} (h : t.FailsWith e) :
    ∃ s : Tree, s.Within t ∧ s.value = .error e := by
  obtain ⟨op, l, r, a, b, x, y, hwithin, hl, hr, ha, hb, happly⟩ := h
  refine ⟨_, hwithin, ?_⟩
  rw [value_node_of_operands hl hr, evaluateOperands_eq_apply ha hb, happly]

/-- An operation whose operands are there fails by its own operator. -/
theorem Numeric.failsWith {t : Tree} (ht : t.Numeric) {op : Operator} {l r : Tree}
    (hwithin : (node op l r).Within t) {a b : Operand} (hl : l.operand? = .ok a)
    (hr : r.operand? = .ok b) {e : EvalError} (h : evaluateOperands a op b = .error e) :
    t.FailsWith e := by
  have hnumeric := Numeric.within hwithin ht
  obtain ⟨-, x, -, hx⟩ := hnumeric.1.exists_values_of_operand hl
  obtain ⟨-, y, -, hy⟩ := hnumeric.2.exists_values_of_operand hr
  rw [evaluateOperands_eq_apply hx hy] at h
  exact ⟨op, l, r, a, b, x, y, hwithin, hl, hr, hx, hy, h⟩

end Tree

/-! ## 4. Formulas without operators -/

namespace Plan

variable {text : String} {plan : Plan}

/-- A formula without operators is a finite number. -/
theorem isFinite_of_constant (h : ofFormula text = .ok plan) {x : Number}
    (hconstant : plan.constant? = some x) : x.isFinite = true := by
  obtain ⟨tree, tokens, htree, rfl, -⟩ := exists_tree_of_ofFormula h
  cases tree with
  | leaf text =>
    obtain ⟨y, hy, hfinite⟩ := htree.exists_ofText?
    have hvalue : (Tree.leaf text).plan.constant? = some y := hy
    rw [hvalue] at hconstant
    cases hconstant
    exact hfinite
  | node op l r => cases hconstant

/-- A formula that is no constant has a task at least. -/
theorem size_ne_zero (h : ofFormula text = .ok plan) (hoperator : plan.constant? = none) :
    plan.size ≠ 0 := by
  obtain ⟨tree, tokens, htree, rfl, -⟩ := exists_tree_of_ofFormula h
  cases tree with
  | leaf text =>
    obtain ⟨x, hx, -⟩ := htree.exists_ofText?
    have hconstant : (Tree.leaf text).plan.constant? = some x := hx
    rw [hconstant] at hoperator
    cases hoperator
  | node op l r =>
    rw [Tree.size_plan, Tree.size]
    omega

end Plan

end Reckoner
