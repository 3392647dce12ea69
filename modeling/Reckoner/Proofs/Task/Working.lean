/-
Reckoner.Proofs.Task.Working — the tasks of an expression work out its tree.

Each task stands for one operation of the tree. An operand of it is what the
subtree hands on, or refers to the task that works the subtree out
(`Task.Feeds`). Handing out a task keeps this, and so does a report of the value
of its operation, whatever happens to the tasks of other expressions meanwhile.

When all tasks but one have ended, that one is the task of the whole tree: the
result of any other would still be waited for.

  1. Tasks and operations
  2. What a task and its report say
  3. The tasks of one expression
  4. The last task
-/
import Reckoner.Proofs.Board.Scan
import Reckoner.Proofs.Formula.Value

namespace Reckoner

/-! ## 1. Tasks and operations -/

namespace Task

/-- The operand is what a subtree hands on, or the task of that subtree. -/
def Feeds (tree : Tree) (first : Int) (child : Tree) : Operand → Prop
  | .literal s => child.operand? = .ok (.literal s)
  | .pending dep => ∃ j : Nat, dep = first + j ∧ tree.operations[j]? = some child

/-- The task works out the operation of its place in the tree. -/
def Computes (tree : Tree) (first : Int) (t : Task) : Prop :=
  ∃ (i : Nat) (l r : Tree), t.id = first + i ∧
    tree.operations[i]? = some (.node t.operator l r) ∧
    Feeds tree first l t.left ∧ Feeds tree first r t.right

variable {tree : Tree} {first : Int}

theorem feeds_of_standsFor {src : Plan.Source} {child : Tree} (h : tree.StandsFor 0 src child) :
    Feeds tree first child (src.operand first) := by
  cases src with
  | literal text =>
    have hchild : child = .leaf text := h
    rw [hchild]
    rfl
  | node j =>
    obtain ⟨k, hj, hk⟩ := h
    exact ⟨k, by omega, hk⟩

theorem computes_of_mem_tasks {e : Int} {timings : Timings} {t : Task}
    (h : t ∈ tree.plan.tasks e first timings) : t.Computes tree first := by
  obtain ⟨i, n, hn, rfl⟩ := Plan.exists_of_mem_tasks h
  obtain ⟨l, r, hop, hl, hr⟩ := Tree.exists_operation hn
  exact ⟨i, l, r, rfl, hop, feeds_of_standsFor hl, feeds_of_standsFor hr⟩

theorem Computes.congr {t u : Task} (h : t.Computes tree first) (hid : u.id = t.id)
    (hop : u.operator = t.operator) (hleft : u.left = t.left) (hright : u.right = t.right) :
    u.Computes tree first := by
  rw [Computes, hid, hop, hleft, hright]
  exact h

/-- The value of an operation takes the place of the reference to its task. -/
theorem Feeds.given {child : Tree} {o : Operand} (h : Feeds tree first child o) {i : Nat}
    {op : Operator} {l r : Tree} (hi : tree.operations[i]? = some (.node op l r)) {x : Number}
    (hx : (Tree.node op l r).value = .ok x) : Feeds tree first child (o.given (first + i) x) := by
  rw [Operand.given]
  split
  · next ho =>
    subst ho
    obtain ⟨j, hj, hchild⟩ := h
    have hij : j = i := by omega
    rw [hij, hi, Option.some_inj] at hchild
    show child.operand? = _
    rw [← hchild, Tree.operand?_node, hx]
    rfl
  · exact h

theorem Computes.given {t : Task} (h : t.Computes tree first) {i : Nat} {op : Operator}
    {l r : Tree} (hi : tree.operations[i]? = some (.node op l r)) {x : Number}
    (hx : (Tree.node op l r).value = .ok x) : (t.given (first + i) x).Computes tree first := by
  obtain ⟨j, l', r', hid, hj, hl, hr⟩ := h
  exact ⟨j, l', r', hid, hj, hl.given hi hx, hr.given hi hx⟩

/-! ## 2. What a task and its report say -/

/-- A task without references has the operands of its operation. -/
theorem Computes.operands {t : Task} (h : t.Computes tree first)
    (hliteral : ∀ side, (t.operand side).isLiteral = true) :
    ∃ (i : Nat) (l r : Tree), t.id = first + i ∧
      tree.operations[i]? = some (.node t.operator l r) ∧
      l.operand? = .ok t.left ∧ r.operand? = .ok t.right := by
  obtain ⟨i, l, r, hid, hi, hl, hr⟩ := h
  have hfeeds : ∀ {child : Tree} {o : Operand}, Feeds tree first child o → o.isLiteral = true →
      child.operand? = .ok o := by
    intro child o hfeeds ho
    cases o with
    | literal s => exact hfeeds
    | pending dep => cases ho
  exact ⟨i, l, r, hid, hi, hfeeds hl (hliteral .left), hfeeds hr (hliteral .right)⟩

end Task

theorem append_ne_empty {s : String} (hs : s.length ≠ 0) (t : String) : s ++ t ≠ "" := by
  intro h
  have hlength := congrArg String.length h
  rw [String.length_append] at hlength
  exact hs (Nat.eq_zero_of_add_eq_zero_right hlength)

theorem EvalError.message_ne_empty : ∀ e : EvalError, e.message ≠ ""
  | .divisionByZero => show "division by zero" ≠ "" by decide
  | .overflow => show "result overflow" ≠ "" by decide
  | .unresolvedOperand id => append_ne_empty (by decide) (Operand.pending id).text
  | .invalidOperand text => append_ne_empty (by decide) text

theorem Task.id_execute (t : Task) : t.execute.id = t.id := by
  rw [execute]
  split <;> rfl

/-- An error in the report of a task that was carried out is the one it ended in. -/
theorem Task.error_of_execute {t : Task} {message : String}
    (h : t.execute.errorText? = some message) :
    ∃ err, t.evaluate = .error err ∧ message = err.message ∧ t.execute.result = .zero := by
  rw [execute] at h ⊢
  cases he : t.evaluate with
  | ok x =>
    rw [he] at h
    cases h
  | error err =>
    simp only [he, Report.failure, Report.errorText?, Option.filter_some,
      decide_eq_true err.message_ne_empty, if_true, Option.some.injEq] at h
    exact ⟨err, rfl, h.symm, rfl⟩

theorem Task.evaluate_of_execute {t : Task} (h : t.execute.errorText? = none) :
    t.evaluate = .ok t.execute.result := by
  rw [execute] at h ⊢
  cases he : t.evaluate with
  | ok x => rfl
  | error err => simp [he, Report.failure, Report.errorText?, err.message_ne_empty] at h

/-! ## 3. The tasks of one expression -/

/-- The tasks of an expression among some tasks work out its tree, and each that
has not ended is waited for, unless it is the last. -/
structure Working (e : Int) (tree : Tree) (first : Int) (ts : List Task) : Prop where
  computes : ∀ t ∈ ts, t.expressionId = e → t.Computes tree first
  awaited : ∀ t ∈ ts, t.expressionId = e → t.status.isFinal = false →
    t.id + 1 < first + tree.size →
    ∃ u ∈ ts, u.expressionId = e ∧ ∃ side, u.operand side = .pending t.id

namespace Working

variable {e first : Int} {tree : Tree} {ts ts' : List Task}

theorem plan (e first : Int) (tree : Tree) (timings : Timings) :
    Working e tree first (tree.plan.tasks e first timings) where
  computes _ ht _ := Task.computes_of_mem_tasks ht
  awaited t ht _ _ hlast := by
    have hl := Plan.linked_plan tree e first timings
    rw [← Tree.size_plan, ← Plan.length_tasks tree.plan e first timings] at hlast
    obtain ⟨u, hu, side, ho⟩ := (Task.mem_dependencies_iff _ _).1 (hl.awaited t ht hlast)
    exact ⟨u, hu, hl.owner u hu, side, ho⟩

/-- Only the tasks of the expression matter. -/
theorem congr (h : Working e tree first ts)
    (hsame : ∀ t, t.expressionId = e → (t ∈ ts' ↔ t ∈ ts)) : Working e tree first ts' where
  computes t ht he := h.computes t ((hsame t he).1 ht) he
  awaited t ht he hs hlast := by
    obtain ⟨u, hu, hue, ho⟩ := h.awaited t ((hsame t he).1 ht) he hs hlast
    exact ⟨u, (hsame u hue).2 hu, hue, ho⟩

theorem handOut (h : Working e tree first ts) {id : Int}
    (hid : ∀ t ∈ ts, t.id = id → t.status.isFinal = false) :
    Working e tree first (ts.map (Board.handedOut id)) where
  computes := by
    refine List.forall_mem_map.2 fun t ht he => ?_
    rw [Board.expressionId_handedOut] at he
    exact (h.computes t ht he).congr (Board.id_handedOut id t) (Board.operator_handedOut id t)
      (Board.operand_handedOut id t .left) (Board.operand_handedOut id t .right)
  awaited := by
    refine List.forall_mem_map.2 fun t ht he hs hlast => ?_
    have hopen : t.status.isFinal = false := by
      rw [Board.handedOut] at hs
      split at hs
      · next heq => exact hid t ht heq
      · exact hs
    rw [Board.expressionId_handedOut] at he
    rw [Board.id_handedOut] at hlast ⊢
    obtain ⟨u, hu, hue, side, ho⟩ := h.awaited t ht he hopen hlast
    exact ⟨_, List.mem_map_of_mem hu, by rw [Board.expressionId_handedOut, hue], side,
      by rw [Board.operand_handedOut, ho]⟩

/-- A report of the value of an operation goes into the operands that wait for it. -/
theorem afterValue (h : Working e tree first ts) {r : Report} {i : Nat} {op : Operator}
    {a b : Tree} (hid : r.id = first + i) (hi : tree.operations[i]? = some (.node op a b))
    (hx : (Tree.node op a b).value = .ok r.result) :
    Working e tree first (ts.map (Board.afterValue r)) where
  computes := by
    refine List.forall_mem_map.2 fun t ht he => ?_
    rw [Board.expressionId_afterValue] at he
    have hreported := (h.computes t ht he).congr (Board.id_reported r t)
      (Board.operator_reported r t) (Board.operand_reported r t .left)
      (Board.operand_reported r t .right)
    rw [Board.afterValue, hid]
    exact hreported.given hi hx
  awaited := by
    refine List.forall_mem_map.2 fun t ht he hs hlast => ?_
    -- The task of the report has ended, so another result is waited for.
    have hopen : t.status.isFinal = false ∧ t.id ≠ r.id := by
      have hs' : (Board.reported r t).status.isFinal = false := hs
      rw [Board.reported] at hs'
      split at hs'
      · cases hs'
      · next hne => exact ⟨hs', hne⟩
    rw [Board.expressionId_afterValue] at he
    rw [Board.id_afterValue] at hlast ⊢
    obtain ⟨u, hu, hue, side, ho⟩ := h.awaited t ht he hopen.1 hlast
    refine ⟨_, List.mem_map_of_mem hu, by rw [Board.expressionId_afterValue, hue], side, ?_⟩
    rw [Board.operand_afterValue, ho, Operand.given, if_neg]
    exact fun heq => hopen.2 (Operand.pending.inj heq)

end Working

/-! ## 4. The last task -/

namespace Board

variable {b b' : Board} {e first : Int} {tree : Tree}

/-- The task that ends last works out the whole tree. -/
theorem last_of_none_left (h : b.Coherent) (hc : b.Counted)
    (hw : Working e tree first b.tasks.values) {r : Report} {t : Task}
    (ht : b.get? r.id = some t) (hs : t.status = .computing) (he : t.expressionId = e)
    (hleft : b.lacking t.expressionId - 1 = 0) : first + tree.size ≤ t.id + 1 := by
  by_contra hlast
  obtain ⟨u, hu, hue, side, ho⟩ :=
    hw.awaited t (mem_tasks_of_get? h ht) he (by rw [hs]; rfl) (by omega)
  exact some_left_of_awaited h hc ht hs hu (hue.trans he.symm) ho hleft

/-- What a report that carries out its task means for the tree of its expression. -/
inductive Settles (e : Int) (tree : Tree) (first : Int) : Completion → Board → Prop
  | failed {b : Board} {err : EvalError} (fails : tree.FailsWith err) :
      Settles e tree first (.finished e (.failed .zero err.message)) b
  | done {b : Board} {x : Number} (value : tree.value = .ok x) :
      Settles e tree first (.finished e (.done x)) b
  | progressed {b : Board} {unblocked : Option Int}
      (working : Working e tree first b.tasks.values) :
      Settles e tree first (.progressed unblocked) b

theorem settles_of_execute (h : b.Coherent) (hc : b.Counted) (hn : tree.Numeric)
    (hw : Working e tree first b.tasks.values) {r : Report} {t : Task}
    (ht : b.get? r.id = some t) (hs : t.status = .computing) (he : t.expressionId = e)
    (hr : r = t.execute) {c : Completion} (hcompletes : Completes b r t c b') :
    Settles e tree first c b' := by
  have hid := h.id_eq r.id t ht
  have hmem := mem_tasks_of_get? h ht
  have hbegun : ∀ side, (t.operand side).isLiteral = true :=
    h.begun r.id t ht (by rw [hs]; exact fun h => nomatch h)
  obtain ⟨i, l, k, hi, hop, hl, hk⟩ := (hw.computes t hmem he).operands hbegun
  have hevaluate : t.evaluate = (Tree.node t.operator l k).value :=
    (Tree.value_node_of_operands hl hk).symm
  cases hcompletes with
  | failed isError =>
    rw [hr] at isError
    obtain ⟨err, herr, rfl, hzero⟩ := Task.error_of_execute isError
    rw [hr, hzero, he]
    have hwithin := Tree.within_of_mem_operations (List.mem_of_getElem? hop)
    exact .failed (hn.failsWith hwithin hl hk herr)
  | last isValue none_left =>
    rw [hr] at isValue
    rw [hr, he]
    have hlast := last_of_none_left h hc hw ht hs he none_left
    have hlt := (List.getElem?_eq_some_iff.1 hop).1
    rw [Tree.length_operations] at hlt
    have htree : Tree.node t.operator l k = tree := Tree.eq_of_operations_last hop (by omega)
    rw [← htree]
    exact .done (hevaluate.symm.trans (Task.evaluate_of_execute isValue))
  | progressed isValue some_left =>
    rw [hr] at isValue
    refine .progressed ?_
    rw [values_afterValue h ht hs]
    refine hw.afterValue (hid ▸ hi) hop ?_
    rw [hr]
    exact hevaluate.symm.trans (Task.evaluate_of_execute isValue)

end Board

end Reckoner
