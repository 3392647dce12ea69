/-
Reckoner.Proofs.Formula.InOrder — a plan worked out node by node.

The nodes of a plan stand in postorder, so each of them finds the values that it
needs among those of the nodes before it. `Plan.valuesOf` goes through the nodes
once and stops at the first that has no value. What the plan comes to in that way
(`Plan.ComesTo`) is what its tree is worth (`comesTo_iff`), so the error of a tree
is the one of its first node without a value.

  1. From node to node
  2. The nodes of a tree
-/
import Reckoner.Expression
import Reckoner.Proofs.Formula.Value

namespace Reckoner

/-! ## 1. From node to node -/

namespace Plan

/-- What a source hands on once the first nodes of its plan have these values. A
node that has none is referred to by its index. -/
def Source.given (values : List Number) : Source → Operand
  | .literal text => .literal text
  | .node index =>
    match values[index]? with
    | some x => .resolved x
    | none => .pending index

/-- The value of a node once the nodes before it have these values. -/
def Node.value (n : Node) (values : List Number) : Except EvalError Number :=
  evaluateOperands (n.left.given values) n.operator (n.right.given values)

/-- The values of some nodes behind those of the nodes before them, or the error of
the first one that has no value. -/
def valuesOf (values : List Number) : List Node → Except EvalError (List Number)
  | [] => .ok values
  | n :: ns =>
    match n.value values with
    | .ok x => valuesOf (values ++ [x]) ns
    | .error e => .error e

theorem valuesOf_append {values values' : List Number} {ns : List Node}
    (h : valuesOf values ns = .ok values') (ms : List Node) :
    valuesOf values (ns ++ ms) = valuesOf values' ms := by
  induction ns generalizing values with
  | nil =>
    cases h
    rfl
  | cons n ns ih =>
    rw [valuesOf] at h
    rw [List.cons_append, valuesOf]
    cases hn : n.value values with
    | ok x =>
      rw [hn] at h
      exact ih h
    | error e =>
      rw [hn] at h
      cases h

theorem valuesOf_of_node_error {values values' : List Number} {before after : List Node} {n : Node}
    {e : EvalError} (h : valuesOf values before = .ok values') (hn : n.value values' = .error e) :
    valuesOf values (before ++ n :: after) = .error e := by
  rw [valuesOf_append h, valuesOf, hn]

/-- The error is that of the first node without a value. -/
theorem exists_first_without_value {values : List Number} {ns : List Node} {e : EvalError}
    (h : valuesOf values ns = .error e) :
    ∃ before n after values', ns = before ++ n :: after ∧
      valuesOf values before = .ok values' ∧ n.value values' = .error e := by
  induction ns generalizing values with
  | nil => cases h
  | cons n ns ih =>
    rw [valuesOf] at h
    cases hn : n.value values with
    | ok x =>
      rw [hn] at h
      obtain ⟨before, m, after, values', rfl, hbefore, hm⟩ := ih h
      refine ⟨n :: before, m, after, values', rfl, ?_, hm⟩
      rw [valuesOf, hn]
      exact hbefore
    | error e' =>
      rw [hn] at h
      cases h
      exact ⟨[], n, ns, values, rfl, rfl, hn⟩

/-- What a plan comes to when its nodes are worked out in their order: the value of
the last node, or the error of the first one without a value. -/
inductive ComesTo (plan : Plan) : Outcome → Prop
  | done {known : List Number} {x : Number} (values : valuesOf [] plan.nodes = .ok (known ++ [x])) :
      ComesTo plan (.done x)
  | failed {before after : List Node} {n : Node} {known : List Number} {e : EvalError}
      (nodes : plan.nodes = before ++ n :: after) (values : valuesOf [] before = .ok known)
      (fails : n.value known = .error e) : ComesTo plan (.failed .zero e.message)

end Plan

/-! ## 2. The nodes of a tree -/

namespace Tree

open Plan (valuesOf)

/-- Going through the operations of a tree ends with the error of the tree, or adds
a value for each of them, and then what the tree hands on is there. -/
def WorkedOut (t : Tree) : Prop :=
  ∀ (values : List Number) (rest : List Plan.Node),
    match t.operand? with
    | .error e => valuesOf values (t.nodes values.length ++ rest) = .error e
    | .ok a => ∃ own : List Number, own.length = t.size ∧
        valuesOf values (t.nodes values.length ++ rest) = valuesOf (values ++ own) rest ∧
        ∀ later, (t.source values.length).given (values ++ own ++ later) = a

/-- The last operation of a tree adds the value of the tree. -/
theorem WorkedOut.join {l r : Tree} (hl : l.WorkedOut) (hr : r.WorkedOut) (op : Operator)
    (values : List Number) (rest : List Plan.Node) :
    match (node op l r).value with
    | .error e => valuesOf values ((node op l r).nodes values.length ++ rest) = .error e
    | .ok x => ∃ own : List Number, own.length = l.size + r.size ∧
        valuesOf values ((node op l r).nodes values.length ++ rest) =
          valuesOf (values ++ own ++ [x]) rest := by
  let n : Plan.Node := ⟨l.source values.length, r.source (values.length + l.size), op⟩
  have hnodes : (node op l r).nodes values.length ++ rest =
      l.nodes values.length ++ (r.nodes (values.length + l.size) ++ n :: rest) := by
    simp [nodes, n]
  rw [hnodes, value]
  have hleft := hl values (r.nodes (values.length + l.size) ++ n :: rest)
  cases hla : l.operand? with
  | error e =>
    rw [hla] at hleft
    exact hleft
  | ok a =>
    rw [hla] at hleft
    obtain ⟨ownl, hsizel, hvaluesl, hgivenl⟩ := hleft
    have hlength : (values ++ ownl).length = values.length + l.size := by
      rw [List.length_append, hsizel]
    have hright := hr (values ++ ownl) (n :: rest)
    rw [hlength] at hright
    rw [hvaluesl]
    cases hrb : r.operand? with
    | error e =>
      rw [hrb] at hright
      exact hright
    | ok b =>
      rw [hrb] at hright
      obtain ⟨ownr, hsizer, hvaluesr, hgivenr⟩ := hright
      have hn : n.value (values ++ ownl ++ ownr) = evaluateOperands a op b := by
        have hb := hgivenr []
        rw [List.append_nil] at hb
        rw [Plan.Node.value, hgivenl ownr, hb]
      rw [hvaluesr, valuesOf, hn]
      show match evaluateOperands a op b with | .error e => _ | .ok x => _
      cases evaluateOperands a op b with
      | error e => rfl
      | ok x =>
        refine ⟨ownl ++ ownr, by rw [List.length_append, hsizel, hsizer], ?_⟩
        simp only [List.append_assoc]

theorem workedOut (t : Tree) : t.WorkedOut := by
  induction t with
  | leaf text => exact fun values _ => ⟨[], rfl, by rw [List.append_nil]; rfl, fun _ => rfl⟩
  | node op l r ihl ihr =>
    intro values rest
    have hnode := ihl.join ihr op values rest
    rw [operand?_node]
    cases hvalue : (node op l r).value with
    | error e =>
      rw [hvalue] at hnode
      exact hnode
    | ok x =>
      rw [hvalue] at hnode
      obtain ⟨own, hsize, hvalues⟩ := hnode
      refine ⟨own ++ [x], by simp [size, hsize], by rw [hvalues, List.append_assoc],
        fun later => ?_⟩
      have hat : (values ++ (own ++ [x]) ++ later)[values.length + l.size + r.size]? = some x := by
        have hindex : values.length + l.size + r.size = (values ++ own).length := by
          rw [List.length_append, hsize, Nat.add_assoc]
        rw [← List.append_assoc, hindex, List.append_assoc,
          List.getElem?_append_right (Nat.le_refl _), Nat.sub_self]
        rfl
      rw [source, Plan.Source.given, hat]

/-- The nodes of a tree with an operator end with the value of the tree, or stop with the
error that keeps it from having one. -/
theorem valuesOf_nodes (op : Operator) (l r : Tree) :
    match (node op l r).value with
    | .error e => valuesOf [] (node op l r).plan.nodes = .error e
    | .ok x => ∃ before, valuesOf [] (node op l r).plan.nodes = .ok (before ++ [x]) := by
  have hnode := l.workedOut.join r.workedOut op [] []
  rw [List.append_nil] at hnode
  cases hvalue : (node op l r).value with
  | error e =>
    rw [hvalue] at hnode
    exact hnode
  | ok x =>
    rw [hvalue] at hnode
    obtain ⟨own, -, hvalues⟩ := hnode
    exact ⟨own, hvalues⟩

/-- The plan of a tree comes to what the tree is worth. -/
theorem comesTo_iff (op : Operator) (l r : Tree) (o : Outcome) :
    (node op l r).plan.ComesTo o ↔ o = match (node op l r).value with
      | .ok x => .done x
      | .error e => .failed .zero e.message := by
  have hnodes := valuesOf_nodes op l r
  cases hvalue : (node op l r).value with
  | error e =>
    rw [hvalue] at hnodes
    constructor
    · intro h
      cases h with
      | done values => cases values.symm.trans hnodes
      | failed nodes values fails =>
        rw [nodes, Plan.valuesOf_of_node_error values fails] at hnodes
        cases hnodes
        rfl
    · rintro rfl
      obtain ⟨before, n, after, known, hsplit, hknown, hfails⟩ :=
        Plan.exists_first_without_value hnodes
      exact .failed hsplit hknown hfails
  | ok x =>
    rw [hvalue] at hnodes
    obtain ⟨before, hall⟩ := hnodes
    constructor
    · intro h
      cases h with
      | done values =>
        obtain ⟨-, hx⟩ := List.append_inj' (Except.ok.inj (values.symm.trans hall)) rfl
        cases hx
        rfl
      | failed nodes values fails =>
        rw [nodes, Plan.valuesOf_of_node_error values fails] at hall
        cases hall
    · rintro rfl
      exact .done hall

end Tree

end Reckoner
