/-
Reckoner.Proofs.Formula.Tokens — which tokens have a plan, and what is wrong with the others.

Some tokens have a plan exactly when they are the postorder of a tree of
literals. There is one such tree at most, and the plan keeps it (`Plan.Keeps`).
Any other tokens are refused because of the first one that cannot be taken
after those before it, or, where each can be taken, because they leave no
operand or several (`Refuses`). Both are said of the tokens alone: the operands
that some tokens leave are counted (`available`), and no builder is looked into.

  1. What the tokens leave
  2. The first token that cannot be taken
  3. What a builder refuses
  4. What a plan keeps of its tree
  5. Every list of tokens
-/
import Reckoner.Proofs.Formula.Alternation

namespace Reckoner.Plan

open Formula (isOperatorToken)

/-! ## 1. What the tokens leave -/

/-- The operands that some tokens leave: a literal is one more, and an operator
makes one of two. -/
def available (tokens : List String) : Nat :=
  tokens.countP isLiteral - tokens.countP isOperatorToken

theorem isLiteral_text (op : Operator) : isLiteral op.text = false := by
  rw [← Bool.not_eq_true]
  intro h
  have hnone := ofToken?_of_isLiteral h
  rw [Operator.ofToken?_text] at hnone
  cases hnone

namespace Builder

variable {b b' : Builder} {tokens : List String}

/-- The operands of a builder and the operators it has met are counted by the
literals it has met. -/
theorem countP_of_step {token : String} (h : b.step token = .ok b') :
    b'.operands.length + (isOperatorToken token).toNat =
      b.operands.length + (isLiteral token).toNat := by
  rw [step] at h
  split at h
  · next op hop =>
    have htoken := Operator.eq_text_of_ofToken? hop
    have hliteral : isLiteral token = false := by rw [htoken, isLiteral_text]
    have hoperator : isOperatorToken token = true := by rw [isOperatorToken, hop]; rfl
    split at h
    · next right left rest hoperands =>
      cases h
      simp [hliteral, hoperator, hoperands]
    · cases h
  · next hop =>
    have hoperator : isOperatorToken token = false := by rw [isOperatorToken, hop]; rfl
    split at h
    · next hliteral =>
      cases h
      simp [hliteral, hoperator]
    · cases h

theorem countP_of_run (h : b.run tokens = .ok b') :
    b'.operands.length + tokens.countP isOperatorToken =
      b.operands.length + tokens.countP isLiteral := by
  induction tokens generalizing b with
  | nil =>
    cases h
    rfl
  | cons token tokens ih =>
    rw [run] at h
    split at h
    · next middle hstep =>
      have hfirst := countP_of_step hstep
      have hrest := ih h
      have hsplit : ∀ p : String → Bool,
          (token :: tokens).countP p = tokens.countP p + (p token).toNat := by
        intro p
        cases hp : p token <;> simp [hp]
      rw [hsplit, hsplit]
      omega
    · cases h

/-- A builder has the operands that its tokens leave. -/
theorem length_operands_of_run (h : empty.run tokens = .ok b) :
    b.operands.length = available tokens := by
  have hcount := countP_of_run h
  simp only [empty, List.length_nil] at hcount
  rw [available]
  omega

end Builder

/-! ## 2. The first token that cannot be taken -/

/-- Why a token cannot be taken after those before it: it is an operator that
finds fewer than two operands, or it is neither an operator nor a literal. -/
inductive Offends (before : List String) : String → PlanError → Prop
  | operator (op : Operator) (few : available before < 2) :
      Offends before op.text (.insufficientOperands op)
  | stray {token : String} (noOperator : Operator.ofToken? token = none)
      (noLiteral : isLiteral token = false) : Offends before token (.invalidToken token)

/-- Each of the tokens can be taken after those before it. -/
def Sequential (tokens : List String) : Prop :=
  ∀ before token after err, tokens = before ++ token :: after → ¬ Offends before token err

/-- Why some tokens are refused: because of the first one that cannot be taken,
or because they do not leave a single operand. -/
inductive Refuses (tokens : List String) : PlanError → Prop
  | first {before after : List String} {token : String} {err : PlanError}
      (split : tokens = before ++ token :: after) (sequential : Sequential before)
      (offends : Offends before token err) : Refuses tokens err
  | unbalanced (sequential : Sequential tokens) (notOne : available tokens ≠ 1) :
      Refuses tokens (.unbalancedOperands (available tokens))

/-! ## 3. What a builder refuses -/

namespace Builder

variable {b b' : Builder} {tokens : List String} {token : String} {err : PlanError}

/-- A builder takes the tokens of two lists one list after the other. -/
theorem run_append (b : Builder) (xs ys : List String) :
    b.run (xs ++ ys) = (b.run xs).bind fun b => b.run ys := by
  induction xs generalizing b with
  | nil => rfl
  | cons x xs ih =>
    rw [List.cons_append, run, run]
    cases b.step x with
    | error err => rfl
    | ok b' => exact ih b'

/-- A run stops at the first token that is refused. -/
theorem run_eq_error_iff :
    b.run tokens = .error err ↔ ∃ before token after b', tokens = before ++ token :: after ∧
      b.run before = .ok b' ∧ b'.step token = .error err := by
  constructor
  · intro h
    induction tokens generalizing b with
    | nil => cases h
    | cons token tokens ih =>
      rw [run] at h
      split at h
      · next b' hstep =>
        obtain ⟨before, token', after, b'', rfl, hbefore, hrefused⟩ := ih h
        exact ⟨token :: before, token', after, b'', rfl, by rw [run, hstep]; exact hbefore,
          hrefused⟩
      · next err' hstep =>
        cases h
        exact ⟨[], token, tokens, b, rfl, rfl, hstep⟩
  · rintro ⟨before, token, after, b', rfl, hbefore, hrefused⟩
    rw [run_append, hbefore]
    show b'.run (token :: after) = .error err
    rw [run, hrefused]

theorem step_eq_error_iff {before : List String} (h : b.operands.length = available before) :
    b.step token = .error err ↔ Offends before token err := by
  constructor
  · intro hstep
    rw [step] at hstep
    split at hstep
    · next op hop =>
      have hfew : available before < 2 := by
        rw [← h]
        split at hstep
        · cases hstep
        · next hshort =>
          rcases hoperands : b.operands with _ | ⟨right, _ | ⟨left, rest⟩⟩
          · exact Nat.zero_lt_two
          · exact Nat.one_lt_two
          · exact absurd hoperands (hshort right left rest)
      rw [Operator.eq_text_of_ofToken? hop]
      split at hstep
      · cases hstep
      · cases hstep
        exact .operator op hfew
    · next hop =>
      split at hstep
      · cases hstep
      · next hliteral =>
        cases hstep
        exact .stray hop (Bool.not_eq_true _ ▸ hliteral)
  · intro hoffends
    cases hoffends with
    | operator op few =>
      rw [← h] at few
      rw [step, Operator.ofToken?_text]
      rcases hoperands : b.operands with _ | ⟨right, _ | ⟨left, rest⟩⟩
      · rfl
      · rfl
      · rw [hoperands] at few
        simp only [List.length_cons] at few
        omega
    | stray noOperator noLiteral => simp [step, noOperator, noLiteral]

/-- A builder takes some tokens exactly when each can be taken after those before. -/
theorem sequential_iff : Sequential tokens ↔ ∃ b, empty.run tokens = .ok b := by
  constructor
  · intro h
    cases hrun : empty.run tokens with
    | ok b => exact ⟨b, rfl⟩
    | error err =>
      obtain ⟨before, token, after, b', hsplit, hbefore, hrefused⟩ := run_eq_error_iff.1 hrun
      have hoffends := (step_eq_error_iff (length_operands_of_run hbefore)).1 hrefused
      exact absurd hoffends (h before token after err hsplit)
  · rintro ⟨b, hrun⟩ before token after err rfl hoffends
    rw [run_append] at hrun
    cases hbefore : empty.run before with
    | error err' =>
      rw [hbefore] at hrun
      cases hrun
    | ok b' =>
      rw [hbefore] at hrun
      have hrest : b'.run (token :: after) = .ok b := hrun
      rw [run, (step_eq_error_iff (length_operands_of_run hbefore)).2 hoffends] at hrest
      cases hrest

theorem run_empty_eq_error_iff :
    empty.run tokens = .error err ↔ ∃ before token after, tokens = before ++ token :: after ∧
      Sequential before ∧ Offends before token err := by
  rw [run_eq_error_iff]
  constructor
  · rintro ⟨before, token, after, b, hsplit, hbefore, hrefused⟩
    exact ⟨before, token, after, hsplit, sequential_iff.2 ⟨b, hbefore⟩,
      (step_eq_error_iff (length_operands_of_run hbefore)).1 hrefused⟩
  · rintro ⟨before, token, after, hsplit, hsequential, hoffends⟩
    obtain ⟨b, hbefore⟩ := sequential_iff.1 hsequential
    exact ⟨before, token, after, b, hsplit, hbefore,
      (step_eq_error_iff (length_operands_of_run hbefore)).2 hoffends⟩

theorem finish_eq_error_iff :
    b.finish = .error err ↔
      b.operands.length ≠ 1 ∧ err = .unbalancedOperands b.operands.length := by
  rw [finish]
  rcases b.operands with _ | ⟨root, _ | ⟨other, rest⟩⟩
  · simp [eq_comm]
  · simp
  · simp [eq_comm]

end Builder

theorem ofTokens_eq_error_iff {tokens : List String} {err : PlanError} :
    ofTokens tokens = .error err ↔ Refuses tokens err := by
  rw [ofTokens]
  cases hrun : Builder.empty.run tokens with
  | error err' =>
    obtain ⟨before, token, after, hsplit, hsequential, hoffends⟩ :=
      Builder.run_empty_eq_error_iff.1 hrun
    constructor
    · intro h
      cases h
      exact .first hsplit hsequential hoffends
    · intro h
      cases h with
      | first split sequential offends =>
        have hsame := Builder.run_empty_eq_error_iff.2 ⟨_, _, _, split, sequential, offends⟩
        rw [hrun] at hsame
        cases hsame
        rfl
      | unbalanced sequential notOne =>
        obtain ⟨b, hok⟩ := Builder.sequential_iff.1 sequential
        rw [hrun] at hok
        cases hok
  | ok b =>
    have hlength := Builder.length_operands_of_run hrun
    show b.finish = .error err ↔ _
    rw [Builder.finish_eq_error_iff, hlength]
    constructor
    · rintro ⟨hne, rfl⟩
      exact .unbalanced (Builder.sequential_iff.2 ⟨b, hrun⟩) hne
    · intro h
      cases h with
      | first split sequential offends =>
        have herror := Builder.run_empty_eq_error_iff.2 ⟨_, _, _, split, sequential, offends⟩
        rw [hrun] at herror
        cases herror
      | unbalanced sequential notOne => exact ⟨notOne, rfl⟩

/-! ## 4. What a plan keeps of its tree -/

/-- A plan is the tree, written down operation by operation. -/
structure Keeps (p : Plan) (t : Tree) : Prop where
  /-- There is one node for each operator, and they come in postorder. -/
  operators : p.nodes.map (·.operator) = t.postorder.filterMap Operator.ofToken?
  /-- Each node stands for the operation of the same place in postorder. -/
  operations : ∀ i s, p.Unfolds (.node i) s ↔ t.operations[i]? = some s
  backward : ∀ (i : Nat) (n : Node), p.nodes[i]? = some n → ∀ j ∈ n.references, j < i
  /-- Over all operands each node but the last is referred to once, and the last never. -/
  once : (p.nodes.flatMap Node.references).Perm (List.range (p.size - 1))
  root_node : 0 < p.size → p.root = .node (p.size - 1) ∧ p.constant? = none
  /-- Without operators the root is the one literal, and its value is finite. -/
  root_literal : p.size = 0 → ∃ text x, t = .leaf text ∧ p.root = .literal text ∧
    p.constant? = some x ∧ x.isFinite = true
  /-- From its root the plan unfolds to the tree and to no other. -/
  unfolds : ∀ u, p.Unfolds p.root u ↔ u = t

/-- The nodes have the operators of the tokens, in the same order. -/
theorem operators_nodes {t : Tree} (h : t.Numeric) (first : Nat) :
    (t.nodes first).map (·.operator) = t.postorder.filterMap Operator.ofToken? := by
  induction t generalizing first with
  | leaf text => simp [Tree.nodes, Tree.postorder, ofToken?_of_isLiteral h]
  | node op l r ihl ihr => simp [Tree.nodes, Tree.postorder, ihl h.1, ihr h.2]

/-- Each node unfolds to the operation of the same place. -/
theorem unfolds_operation {t s : Tree} {i : Nat} (h : t.operations[i]? = some s) :
    t.plan.Unfolds (.node i) s := by
  -- The sources of a node refer to earlier nodes, which have been dealt with.
  induction i using Nat.strongRecOn generalizing s with
  | ind i ih =>
    have hlt : i < (t.nodes 0).length := by
      rw [t.length_nodes, ← t.length_operations]
      exact (List.getElem?_eq_some_iff.1 h).1
    have hnode : (t.nodes 0)[i]? = some (t.nodes 0)[i] := List.getElem?_eq_getElem hlt
    obtain ⟨l, r, hs, hl, hr⟩ := Tree.exists_operation hnode
    have hsource : ∀ source child, t.StandsFor 0 source child →
        (∀ j ∈ source.references, j < i) → t.plan.Unfolds source child := by
      intro source child hchild hbelow
      cases source with
      | literal text =>
        rw [show child = .leaf text from hchild]
        exact .literal text
      | node j =>
        obtain ⟨k, hj, hk⟩ := hchild
        rw [Nat.zero_add] at hj
        subst hj
        exact ih j (hbelow j List.mem_cons_self) hk
    have hbelow : ∀ j ∈ (t.nodes 0)[i].references, j < i := fun j hj => by
      have := (Tree.references_lt hnode hj).2
      omega
    rw [hs] at h
    cases h
    exact .node hnode
      (hsource _ _ hl fun j hj => hbelow j (List.mem_append_left _ hj))
      (hsource _ _ hr fun j hj => hbelow j (List.mem_append_right _ hj))

theorem unfolds_node_iff (t s : Tree) (i : Nat) :
    t.plan.Unfolds (.node i) s ↔ t.operations[i]? = some s := by
  constructor
  · intro hs
    cases hs with
    | node at_i left right =>
      obtain ⟨l, r, hop, -, -⟩ := Tree.exists_operation (t := t) at_i
      rw [hop, (unfolds_operation hop).unique (.node at_i left right)]
  · exact unfolds_operation

theorem references_plan (t : Tree) :
    (t.plan.nodes.flatMap Node.references).Perm (List.range (t.size - 1)) := by
  have hperm := t.references_perm 0
  rw [← List.range_eq_range'] at hperm
  cases t with
  | leaf text => exact .refl _
  | node op l r =>
    have hsize : (Tree.node op l r).size = l.size + r.size + 1 := rfl
    have hroot : ((Tree.node op l r).source 0).references = [l.size + r.size] := by
      simp [Tree.source, Source.references]
    rw [hroot, hsize, List.range_succ] at hperm
    rw [hsize, Nat.add_sub_cancel]
    exact (List.perm_append_right_iff _).1 hperm

theorem keeps_plan {t : Tree} (h : t.Numeric) : t.plan.Keeps t where
  operators := operators_nodes h 0
  operations i s := unfolds_node_iff t s i
  backward i n hn j hj := by
    have := (Tree.references_lt hn hj).2
    omega
  once := by
    rw [t.size_plan]
    exact references_plan t
  root_node hpos := by
    cases t with
    | leaf text => exact absurd hpos (Nat.lt_irrefl 0)
    | node op l r =>
      rw [Tree.size_plan]
      simp [Tree.plan, Tree.source, Tree.size, constant?]
  root_literal hzero := by
    cases t with
    | leaf text =>
      have hliteral : isLiteral text = true := h
      rw [isLiteral, Bool.and_eq_true, Option.any_eq_true] at hliteral
      obtain ⟨x, hx, hfinite⟩ := hliteral.2
      exact ⟨text, x, rfl, rfl, hx, hfinite⟩
    | node op l r => simp [Tree.size] at hzero
  unfolds u := ⟨fun hu => hu.unique (unfolds_plan t), fun hu => hu ▸ unfolds_plan t⟩

/-! ## 5. Every list of tokens -/

/-- The postorder of two trees of literals is the same only if they are the same tree. -/
theorem eq_of_postorder_eq {t u : Tree} (ht : t.Numeric) (hu : u.Numeric)
    (h : t.postorder = u.postorder) : t = u := by
  have hplan := ofTokens_postorder ht
  rw [h, ofTokens_postorder hu] at hplan
  exact (tree_eq_of_plan_eq (Except.ok.inj hplan)).symm

/-- Some tokens have a plan exactly when they are the postorder of a tree of literals,
of which there is only one, and then the plan keeps that tree. Otherwise the first
token that cannot be taken says why there is none, or, where each can be taken, the
number of operands that are left. -/
theorem keeps_tree_or_refuses (tokens : List String) :
    ((∃ p, ofTokens tokens = .ok p) ↔ ∃! t : Tree, t.Numeric ∧ tokens = t.postorder) ∧
    (∀ p t, ofTokens tokens = .ok p → t.Numeric → tokens = t.postorder → p.Keeps t) ∧
    ∀ err, ofTokens tokens = .error err ↔ Refuses tokens err := by
  refine ⟨⟨?_, ?_⟩, ?_, fun err => ofTokens_eq_error_iff⟩
  · rintro ⟨p, hp⟩
    obtain ⟨t, ht, rfl, -⟩ := ofTokens_eq_ok_iff.1 hp
    exact ⟨t, ⟨ht, rfl⟩, fun u hu => eq_of_postorder_eq hu.1 ht hu.2.symm⟩
  · rintro ⟨t, ⟨ht, rfl⟩, -⟩
    exact ⟨t.plan, ofTokens_postorder ht⟩
  · rintro p t hp ht rfl
    rw [ofTokens_postorder ht] at hp
    cases hp
    exact keeps_plan ht

/-- `1 - 2 * 3` keeps its tree, and `1 + x` is refused because of its operator. -/
theorem keeps_tree_or_refuses_difference :
    (∃ p, ofTokens ["1", "2", "3", "*", "-"] = .ok p ∧
      p.Keeps (.node .subtract (.leaf "1") (.node .multiply (.leaf "2") (.leaf "3")))) ∧
    ofTokens ["1", "+", "x"] = .error (.insufficientOperands .add) := by
  have hliteral : isLiteral "1" ∧ isLiteral "2" ∧ isLiteral "3" := by decide +kernel
  have hnumeric :
      Tree.Numeric (.node .subtract (.leaf "1") (.node .multiply (.leaf "2") (.leaf "3"))) :=
    ⟨hliteral.1, hliteral.2.1, hliteral.2.2⟩
  obtain ⟨⟨-, hplan⟩, hkeeps, -⟩ := keeps_tree_or_refuses ["1", "2", "3", "*", "-"]
  obtain ⟨p, hp⟩ := hplan ⟨_, ⟨hnumeric, rfl⟩,
    fun u hu => eq_of_postorder_eq hu.1 hnumeric hu.2.symm⟩
  obtain ⟨-, -, hrefuses⟩ := keeps_tree_or_refuses ["1", "+", "x"]
  have hsequential : Sequential ["1"] := Builder.sequential_iff.2 ⟨⟨[], [.literal "1"]⟩, by
    simp [Builder.run, Builder.step, Builder.empty, ofToken?_of_isLiteral hliteral.1, hliteral.1]⟩
  exact ⟨⟨p, hp, hkeeps p _ hp hnumeric rfl⟩, (hrefuses _).2
    (.first (show ["1", "+", "x"] = ["1"] ++ Operator.add.text :: ["x"] from rfl) hsequential
      (.operator .add (by decide +kernel)))⟩

end Reckoner.Plan
