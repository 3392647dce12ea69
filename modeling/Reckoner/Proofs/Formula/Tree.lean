/-
Reckoner.Proofs.Formula.Tree — the binary tree of a formula, and its plan.

A plan lists the operations of a tree in postorder, and each of its sources
names a subtree. The main statement is `ofTokens_eq_ok_iff`: some tokens have a
plan exactly when they are the postorder of a tree of literals, and then it is
the plan of that tree.

The tokens are taken from the left, so the builder stands for a stack of trees
that are finished so far. `Builder.ofForest` is that stack, and an operator
joins its two topmost trees.

  1. Trees
  2. The plan of a tree
  3. From a postorder to its plan
  4. From a plan back to its tree
  5. What the nodes of a tree refer to
  6. The operations behind the nodes
-/
import Mathlib.Data.List.Perm.Basic
import Mathlib.Data.List.Range
import Reckoner.Formula.Plan

namespace Reckoner

/-! ## 1. Trees -/

/-- A formula as a tree: its leaves are literals, its inner nodes operators. -/
inductive Tree where
  | leaf (text : String)
  | node (op : Operator) (left right : Tree)
deriving DecidableEq

namespace Tree

/-- The tokens of a tree, each operator behind its two operands. -/
def postorder : Tree → List String
  | leaf text => [text]
  | node op l r => l.postorder ++ (r.postorder ++ [op.text])

/-- The number of operators. -/
def size : Tree → Nat
  | leaf _ => 0
  | node _ l r => l.size + r.size + 1

/-- Every leaf is a literal of a formula. -/
def Numeric : Tree → Prop
  | leaf text => Plan.isLiteral text = true
  | node _ l r => l.Numeric ∧ r.Numeric

/-- The subtrees with an operator, in postorder. -/
def operations : Tree → List Tree
  | leaf _ => []
  | node op l r => l.operations ++ (r.operations ++ [node op l r])

@[simp] theorem length_operations (t : Tree) : t.operations.length = t.size := by
  induction t with
  | leaf text => rfl
  | node op l r ihl ihr => simp [operations, size, ihl, ihr]; omega

/-- A subtree, the tree itself included. -/
inductive Within : Tree → Tree → Prop
  | refl (t : Tree) : Within t t
  | left {s l : Tree} (op : Operator) (r : Tree) : Within s l → Within s (node op l r)
  | right {s r : Tree} (op : Operator) (l : Tree) : Within s r → Within s (node op l r)

theorem within_of_mem_operations {s t : Tree} (h : s ∈ t.operations) : s.Within t := by
  induction t with
  | leaf text => cases h
  | node op l r ihl ihr =>
    simp only [operations, List.mem_append, List.mem_singleton] at h
    rcases h with h | h | rfl
    · exact .left op r (ihl h)
    · exact .right op l (ihr h)
    · exact .refl _

/-- The tree itself is its last operation. -/
theorem eq_of_operations_last {t s : Tree} {i : Nat} (h : t.operations[i]? = some s)
    (hlast : i + 1 = t.size) : s = t := by
  cases t with
  | leaf text => cases h
  | node op l r =>
    have hi : i = (l.operations ++ r.operations).length := by
      simp only [size] at hlast
      simp only [List.length_append, length_operations]
      omega
    rw [operations, ← List.append_assoc, hi, List.getElem?_concat_length] at h
    exact (Option.some.inj h).symm

/-! ## 2. The plan of a tree -/

/-- Where the value of a tree comes from whose first operation has index `first`. -/
def source (first : Nat) : Tree → Plan.Source
  | leaf text => .literal text
  | node _ l r => .node (first + l.size + r.size)

/-- The operations of a tree the first of which has index `first`. -/
def nodes (first : Nat) : Tree → List Plan.Node
  | leaf _ => []
  | node op l r =>
    l.nodes first ++
      (r.nodes (first + l.size) ++ [⟨l.source first, r.source (first + l.size), op⟩])

/-- The plan of a tree. -/
def plan (t : Tree) : Plan := ⟨t.nodes 0, t.source 0⟩

@[simp] theorem length_nodes (t : Tree) (first : Nat) : (t.nodes first).length = t.size := by
  induction t generalizing first with
  | leaf text => rfl
  | node op l r ihl ihr => simp [nodes, size, ihl, ihr]; omega

/-- The literals of an operation are leaves of the tree. -/
theorem Numeric.isLiteral_of_mem_nodes {t : Tree} (h : t.Numeric) {first : Nat} {n : Plan.Node}
    (hn : n ∈ t.nodes first) :
    (∀ text, n.left = .literal text → Plan.isLiteral text = true) ∧
      ∀ text, n.right = .literal text → Plan.isLiteral text = true := by
  have hsource : ∀ {t : Tree} {first : Nat} {text : String}, t.Numeric →
      t.source first = .literal text → Plan.isLiteral text = true := by
    intro t first text ht hs
    cases t with
    | leaf text' =>
      cases hs
      exact ht
    | node op l r => cases hs
  induction t generalizing first with
  | leaf text => cases hn
  | node op l r ihl ihr =>
    simp only [nodes, List.mem_append, List.mem_singleton] at hn
    rcases hn with hn | hn | rfl
    · exact ihl h.1 hn
    · exact ihr h.2 hn
    · exact ⟨fun _ => hsource h.1, fun _ => hsource h.2⟩

@[simp] theorem size_plan (t : Tree) : t.plan.size = t.size := t.length_nodes 0

end Tree

/-! ## 3. From a postorder to its plan -/

namespace Plan

/-- A literal has a digit, so it is no operator. -/
theorem ofToken?_of_isLiteral {token : String} (h : isLiteral token = true) :
    Operator.ofToken? token = none := by
  simp only [isLiteral, Bool.and_eq_true] at h
  unfold Operator.ofToken?
  split
  · next c hc =>
    rw [hc] at h
    have hd : c.isDigit = true := by simpa using h.1
    cases ho : Operator.ofChar? c with
    | none => rfl
    | some op =>
      rw [Operator.eq_symbol_of_ofChar? ho] at hd
      cases op <;> exact absurd hd (by decide)
  · rfl

namespace Builder

/-- The builder once a whole tree has been read. -/
def push (b : Builder) (t : Tree) : Builder :=
  ⟨b.nodes ++ t.nodes b.nodes.length, t.source b.nodes.length :: b.operands⟩

/-- An operator joins the two trees read last. -/
theorem step_operator (b : Builder) (op : Operator) (l r : Tree) :
    ((b.push l).push r).step op.text = .ok (b.push (.node op l r)) := by
  simp [step, push, Tree.nodes, Tree.source, Nat.add_assoc]

theorem step_literal (b : Builder) {text : String} (h : isLiteral text = true) :
    b.step text = .ok (b.push (.leaf text)) := by
  simp [step, push, ofToken?_of_isLiteral h, h, Tree.nodes, Tree.source]

/-- Reading the postorder of a tree pushes the tree, whatever comes after it. -/
theorem run_postorder {t : Tree} (h : t.Numeric) (b : Builder) (rest : List String) :
    b.run (t.postorder ++ rest) = (b.push t).run rest := by
  induction t generalizing b rest with
  | leaf text => simp [Tree.postorder, run, step_literal b h]
  | node op l r ihl ihr =>
    simp only [Tree.postorder, List.append_assoc]
    rw [ihl h.1, ihr h.2, List.singleton_append, run, step_operator]

/-- The builder that has read some trees, given latest first. -/
def ofForest : List Tree → Builder
  | [] => empty
  | t :: ts => (ofForest ts).push t

/-- The tokens of some trees, given latest first. -/
def forestTokens : List Tree → List String
  | [] => []
  | t :: ts => forestTokens ts ++ t.postorder

/-- One token more is one tree more, or two trees joined into one. -/
theorem step_ofForest {ts : List Tree} {token : String} {b : Builder}
    (hts : ∀ t ∈ ts, t.Numeric) (h : (ofForest ts).step token = .ok b) :
    ∃ ts', (∀ t ∈ ts', t.Numeric) ∧ forestTokens ts' = forestTokens ts ++ [token] ∧
      b = ofForest ts' := by
  cases ho : Operator.ofToken? token with
  | none =>
    simp only [step, ho] at h
    split at h
    · next hl =>
      refine ⟨.leaf token :: ts, ?_, rfl, ?_⟩
      · exact List.forall_mem_cons.2 ⟨hl, hts⟩
      · cases h
        simp [ofForest, push, Tree.nodes, Tree.source]
    · cases h
  | some op =>
    have htoken : token = op.text := Operator.eq_text_of_ofToken? ho
    match ts, hts with
    | [], _ => simp [step, ho, ofForest, empty] at h
    | [t], _ => simp [step, ho, ofForest, push, empty] at h
    | r :: l :: ts, hts =>
      rw [htoken, ofForest, ofForest, step_operator] at h
      refine ⟨.node op l r :: ts, ?_, ?_, ?_⟩
      · have hr := List.forall_mem_cons.1 hts
        have hl := List.forall_mem_cons.1 hr.2
        exact List.forall_mem_cons.2 ⟨⟨hl.1, hr.1⟩, hl.2⟩
      · simp [forestTokens, Tree.postorder, htoken]
      · cases h
        rfl

theorem run_ofForest {ts : List Tree} {tokens : List String} {b : Builder}
    (hts : ∀ t ∈ ts, t.Numeric) (h : (ofForest ts).run tokens = .ok b) :
    ∃ ts', (∀ t ∈ ts', t.Numeric) ∧ forestTokens ts' = forestTokens ts ++ tokens ∧
      b = ofForest ts' := by
  -- The builder is at every token the one that has read some trees.
  induction tokens generalizing ts with
  | nil =>
    cases h
    exact ⟨ts, hts, by simp, rfl⟩
  | cons token tokens ih =>
    rw [run] at h
    split at h
    · next b' hb' =>
      obtain ⟨ts', hts', htok, rfl⟩ := step_ofForest hts hb'
      obtain ⟨ts'', hts'', htok', rfl⟩ := ih hts' h
      exact ⟨ts'', hts'', by simp [htok', htok], rfl⟩
    · cases h

end Builder

theorem ofTokens_postorder {t : Tree} (h : t.Numeric) : ofTokens t.postorder = .ok t.plan := by
  have hrun := Builder.run_postorder h Builder.empty []
  rw [List.append_nil] at hrun
  rw [ofTokens, hrun]
  rfl

/-- Some tokens have a plan exactly when they are the postorder of a tree of
literals, and then it is the plan of that tree. -/
theorem ofTokens_eq_ok_iff {tokens : List String} {p : Plan} :
    ofTokens tokens = .ok p ↔ ∃ t : Tree, t.Numeric ∧ tokens = t.postorder ∧ p = t.plan := by
  constructor
  · intro h
    rw [ofTokens] at h
    split at h
    · next b hb =>
      have hb' : (Builder.ofForest []).run tokens = .ok b := hb
      obtain ⟨ts, hts, htok, rfl⟩ := Builder.run_ofForest (by simp) hb'
      match ts, hts with
      | [], _ => cases h
      | [t], hts =>
        refine ⟨t, hts t (by simp), by simpa [Builder.forestTokens] using htok.symm, ?_⟩
        simp only [Builder.ofForest, Builder.push, Builder.empty, Builder.finish] at h
        cases h
        rfl
      | r :: l :: ts, _ => cases h
    · cases h
  · rintro ⟨t, ht, rfl, rfl⟩
    exact ofTokens_postorder ht

/-- Every formula that compiles has the plan of a tree of literals, whose postorder it has
been turned into. -/
theorem exists_postorder_of_ofFormula {s : String} {plan : Plan} (h : ofFormula s = .ok plan) :
    ∃ tree : Tree, tree.Numeric ∧ plan = tree.plan ∧ Formula.postfixOf s = .ok tree.postorder := by
  rw [ofFormula] at h
  split at h
  · cases h
  · next tokens htokens =>
    split at h
    · cases h
    · next p hp =>
      cases h
      obtain ⟨tree, hnumeric, rfl, rfl⟩ := ofTokens_eq_ok_iff.1 hp
      exact ⟨tree, hnumeric, rfl, htokens⟩

theorem exists_tree_of_ofFormula {s : String} {plan : Plan} (h : ofFormula s = .ok plan) :
    ∃ (tree : Tree) (tokens : List String), tree.Numeric ∧ plan = tree.plan ∧
      ofTokens tokens = .ok plan := by
  obtain ⟨tree, hnumeric, rfl, -⟩ := exists_postorder_of_ofFormula h
  exact ⟨tree, tree.postorder, hnumeric, rfl, ofTokens_postorder hnumeric⟩

/-! ## 4. From a plan back to its tree -/

/-- The tree that a source of a plan stands for. -/
inductive Unfolds (p : Plan) : Source → Tree → Prop
  | literal (text : String) : Unfolds p (.literal text) (.leaf text)
  | node {i : Nat} {n : Node} {l r : Tree} (at_i : p.nodes[i]? = some n)
      (left : Unfolds p n.left l) (right : Unfolds p n.right r) :
      Unfolds p (.node i) (.node n.operator l r)

theorem Unfolds.unique {p : Plan} {s : Source} {t u : Tree} (ht : p.Unfolds s t)
    (hu : p.Unfolds s u) : t = u := by
  induction ht generalizing u with
  | literal text => cases hu; rfl
  | node at_i _ _ ihl ihr =>
    cases hu with
    | node at_i' left right =>
      rw [at_i] at at_i'
      cases at_i'
      rw [ihl left, ihr right]

/-- The operations of a tree unfold to it wherever they stand in a plan. -/
theorem unfolds_source {p : Plan} (t : Tree) {pre post : List Node}
    (h : p.nodes = pre ++ (t.nodes pre.length ++ post)) :
    p.Unfolds (t.source pre.length) t := by
  induction t generalizing pre post with
  | leaf text => exact .literal text
  | node op l r ihl ihr =>
    let n : Node := ⟨l.source pre.length, r.source (pre.length + l.size), op⟩
    have hl : p.Unfolds n.left l :=
      @ihl pre (r.nodes (pre.length + l.size) ++ n :: post) (by rw [h]; simp [Tree.nodes, n])
    have hr := @ihr (pre ++ l.nodes pre.length) (n :: post) (by rw [h]; simp [Tree.nodes, n])
    rw [List.length_append, Tree.length_nodes] at hr
    refine .node (n := n) ?_ hl hr
    rw [h]
    simp [Tree.nodes, n, Nat.add_assoc]

/-- The plan of a tree unfolds to the tree. -/
theorem unfolds_plan (t : Tree) : t.plan.Unfolds t.plan.root t :=
  @unfolds_source t.plan t [] [] (by simp [Tree.plan])

/-- Different trees have different plans. -/
theorem tree_eq_of_plan_eq {t u : Tree} (h : t.plan = u.plan) : t = u := by
  have hu := unfolds_plan u
  rw [← h] at hu
  exact (unfolds_plan t).unique hu

/-! ## 5. What the nodes of a tree refer to -/

/-- The node a source refers to, if it is no literal. -/
def Source.references : Source → List Nat
  | .literal _ => []
  | .node i => [i]

/-- The nodes that an operation takes its operands from. -/
def Node.references (n : Node) : List Nat := n.left.references ++ n.right.references

end Plan

namespace Tree

/-- Every operation of a tree but the last is referred to exactly once. -/
theorem references_perm (t : Tree) (first : Nat) :
    ((t.nodes first).flatMap Plan.Node.references ++ (t.source first).references).Perm
      (List.range' first t.size) := by
  induction t generalizing first with
  | leaf text => exact .refl _
  | node op l r ihl ihr =>
    have hsplit : List.range' first (node op l r).size =
        List.range' first l.size ++ List.range' (first + l.size) r.size ++
          [first + l.size + r.size] := by
      rw [List.range'_append_1, size, List.range'_1_concat, Nat.add_assoc]
    rw [hsplit]
    refine List.Perm.append ?_ (.refl _)
    refine List.Perm.trans ?_ ((ihl first).append (ihr (first + l.size)))
    simp only [nodes, List.flatMap_append, List.flatMap_cons, List.flatMap_nil, List.append_nil,
      Plan.Node.references, List.append_assoc]
    exact List.Perm.append_left _ (List.perm_append_comm_assoc _ _ _)

/-- An operation refers to earlier ones only. -/
theorem references_lt {t : Tree} {first i : Nat} {n : Plan.Node}
    (h : (t.nodes first)[i]? = some n) {j : Nat} (hj : j ∈ n.references) :
    first ≤ j ∧ j < first + i := by
  induction t generalizing first i with
  | leaf text => simp [nodes] at h
  | node op l r ihl ihr =>
    rw [nodes, List.getElem?_append, length_nodes] at h
    split at h
    · exact ihl h
    · next hi =>
      rw [List.getElem?_append, length_nodes] at h
      split at h
      · have := ihr h
        omega
      · next hi' =>
        have hlast : i = l.size + r.size := by
          have := (List.getElem?_eq_some_iff.1 h).1
          simp at this
          omega
        have hn : n = ⟨l.source first, r.source (first + l.size), op⟩ := by
          subst hlast
          simpa using h.symm
        subst hn
        rcases List.mem_append.1 hj with hj | hj
        · have := (l.references_perm first).subset (List.mem_append_right _ hj)
          rw [List.mem_range'_1] at this
          omega
        · have := (r.references_perm (first + l.size)).subset (List.mem_append_right _ hj)
          rw [List.mem_range'_1] at this
          omega

/-! ## 6. The operations behind the nodes -/

/-- A source of a plan whose first node has index `first` stands for this tree. -/
def StandsFor (t : Tree) (first : Nat) : Plan.Source → Tree → Prop
  | .literal text, child => child = leaf text
  | .node j, child => ∃ k, j = first + k ∧ t.operations[k]? = some child

theorem standsFor_source (t : Tree) (first : Nat) : t.StandsFor first (t.source first) t := by
  cases t with
  | leaf text => exact rfl
  | node op l r =>
    refine ⟨(l.operations ++ r.operations).length, ?_, ?_⟩
    · simp only [List.length_append, length_operations]
      omega
    · rw [operations, ← List.append_assoc, List.getElem?_concat_length]

theorem StandsFor.left {l child : Tree} {first : Nat} {src : Plan.Source}
    (h : l.StandsFor first src child) (op : Operator) (r : Tree) :
    (node op l r).StandsFor first src child := by
  cases src with
  | literal text => exact h
  | node j =>
    obtain ⟨k, hj, hk⟩ := h
    have hlt := (List.getElem?_eq_some_iff.1 hk).1
    exact ⟨k, hj, by rw [operations, List.getElem?_append_left hlt, hk]⟩

theorem StandsFor.right {l r child : Tree} {first : Nat} {src : Plan.Source}
    (h : r.StandsFor (first + l.size) src child) (op : Operator) :
    (node op l r).StandsFor first src child := by
  cases src with
  | literal text => exact h
  | node j =>
    obtain ⟨k, hj, hk⟩ := h
    have hlt := (List.getElem?_eq_some_iff.1 hk).1
    refine ⟨l.operations.length + k, by rw [length_operations]; omega, ?_⟩
    rw [operations, List.getElem?_append_right (Nat.le_add_right _ _), Nat.add_sub_cancel_left,
      List.getElem?_append_left hlt, hk]

/-- Each node is the operation of the same index, and its sources stand for the
two trees below. -/
theorem exists_operation {t : Tree} {first i : Nat} {n : Plan.Node}
    (h : (t.nodes first)[i]? = some n) :
    ∃ l r, t.operations[i]? = some (node n.operator l r) ∧
      t.StandsFor first n.left l ∧ t.StandsFor first n.right r := by
  induction t generalizing first i with
  | leaf text => cases h
  | node op l r ihl ihr =>
    rw [nodes, List.getElem?_append, length_nodes] at h
    rw [operations, List.getElem?_append, length_operations]
    split at h
    · next hi =>
      obtain ⟨cl, cr, hop, hcl, hcr⟩ := ihl h
      exact ⟨cl, cr, by rw [if_pos hi, hop], hcl.left op r, hcr.left op r⟩
    · next hi =>
      rw [if_neg hi]
      rw [List.getElem?_append, length_nodes] at h
      rw [List.getElem?_append, length_operations]
      split at h
      · next hi' =>
        obtain ⟨cl, cr, hop, hcl, hcr⟩ := ihr h
        exact ⟨cl, cr, by rw [if_pos hi', hop], hcl.right op, hcr.right op⟩
      · next hi' =>
        rw [if_neg hi']
        rw [List.getElem?_singleton] at h ⊢
        split at h
        · next hzero =>
          cases h
          exact ⟨l, r, by rw [if_pos hzero], (standsFor_source l first).left op r,
            (standsFor_source r _).right op⟩
        · cases h

end Tree

end Reckoner
