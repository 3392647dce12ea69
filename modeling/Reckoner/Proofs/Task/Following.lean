/-
Reckoner.Proofs.Task.Following — the tasks of an expression follow its plan.

Nothing is asked here of the values that are reported. Each task of an expression
belongs to one node of its plan: it has the operator of the node, and each of its
operands is the source of the node, or what has been reported on the task of the
node that the source names (`Follows`). Handing out a task keeps this, and so does
the report of any value.

A node of a plan but the last is the source of a later one. So a task that has not
ended is waited for, whatever was reported, unless it is the last of its expression.

  1. The operands of a node
  2. Tasks that follow a plan
  3. Steps
  4. Who waits
-/
import Reckoner.Proofs.Board.Scan

namespace Reckoner

/-! ## 1. The operands of a node -/

/-- Where a node takes the operand of one side from. -/
def Plan.Node.source (n : Plan.Node) : Side → Plan.Source
  | .left => n.left
  | .right => n.right

theorem Plan.Node.operand_task (n : Plan.Node) (e first : Int) (timings : Timings) (index : Nat)
    (side : Side) : (n.task e first timings index).operand side =
      (n.source side).operand first := by
  cases side <;> rfl

theorem Plan.Node.mem_references_iff (n : Plan.Node) (j : Nat) :
    j ∈ n.references ↔ ∃ side, n.source side = .node j := by
  have hsource : ∀ src : Plan.Source, j ∈ src.references ↔ src = .node j := by
    intro src
    cases src with
    | literal text => exact ⟨fun h => (nomatch h), fun h => nomatch h⟩
    | node i =>
      rw [Plan.Source.references, List.mem_singleton, Plan.Source.node.injEq]
      exact eq_comm
  rw [references, List.mem_append, hsource, hsource]
  constructor
  · rintro (hl | hr)
    · exact ⟨.left, hl⟩
    · exact ⟨.right, hr⟩
  · rintro ⟨side, hside⟩
    cases side with
    | left => exact .inl hside
    | right => exact .inr hside

namespace Task

/-- The task is done, with this value. -/
structure DoneWith (t : Task) (x : Number) : Prop where
  status : t.status = .done
  result : t.result = some x

/-- The report of a value ends its task. -/
theorem doneWith_afterValue {t : Task} {r : Report} (hid : t.id = r.id) :
    (Board.afterValue r t).DoneWith r.result := by
  rw [Board.afterValue, Board.reported, if_pos hid]
  exact ⟨rfl, rfl⟩

/-- The other tasks that are done stay as they are. -/
theorem DoneWith.afterValue {t : Task} {r : Report} {x : Number} (h : t.DoneWith x)
    (hid : t.id ≠ r.id) : (Board.afterValue r t).DoneWith x := by
  rw [Board.afterValue, Board.reported, if_neg hid]
  exact ⟨h.status, h.result⟩

/-- The operand is the source itself, or the value of the task that the source names. -/
def Supplied (e first : Int) (ts : List Task) : Plan.Source → Operand → Prop
  | .literal text, o => o = .literal text
  | .node j, o => o = .pending (first + j) ∨
      ∃ u ∈ ts, u.expressionId = e ∧ u.id = first + j ∧ ∃ x, u.DoneWith x ∧ o = .resolved x

variable {e first : Int} {ts ts' : List Task} {src : Plan.Source} {o : Operand}

theorem supplied_operand (src : Plan.Source) : Supplied e first ts src (src.operand first) := by
  cases src with
  | literal text => rfl
  | node j => exact .inl rfl

/-- What is done stays done. -/
theorem Supplied.mono (h : Supplied e first ts src o)
    (hdone : ∀ u ∈ ts, u.expressionId = e → ∀ x, u.DoneWith x →
      ∃ u' ∈ ts', u'.expressionId = e ∧ u'.id = u.id ∧ u'.DoneWith x) :
    Supplied e first ts' src o := by
  cases src with
  | literal text => exact h
  | node j =>
    rcases h with h | ⟨u, hu, howner, hid, x, hx, ho⟩
    · exact .inl h
    · obtain ⟨u', hu', howner', hid', hx'⟩ := hdone u hu howner x hx
      exact .inr ⟨u', hu', howner', hid'.trans hid, x, hx', ho⟩

/-- The value of a task that is done takes the place of the reference to it. -/
theorem Supplied.given {id : Int} {x : Number} (h : Supplied e first ts src o) {t : Task}
    (ht : t ∈ ts) (howner : t.expressionId = e) (hid : t.id = id) (hx : t.DoneWith x) :
    Supplied e first ts src (o.given id x) := by
  rw [Operand.given]
  split
  · next ho =>
    subst ho
    cases src with
    | literal text => cases h
    | node j =>
      rcases h with h | ⟨u, -, -, -, y, -, hpending⟩
      · exact .inr ⟨t, ht, howner, hid.trans (Operand.pending.inj h), x, hx, rfl⟩
      · cases hpending
  · exact h

end Task

/-! ## 2. Tasks that follow a plan -/

/-- The tasks of an expression among some tasks are those of the nodes of a plan. -/
structure Follows (e : Int) (plan : Plan) (first : Int) (ts : List Task) : Prop where
  at_node : ∀ t ∈ ts, t.expressionId = e → ∃ (i : Nat) (n : Plan.Node), t.id = first + i ∧
    plan.nodes[i]? = some n ∧ t.operator = n.operator ∧
    ∀ side, Task.Supplied e first ts (n.source side) (t.operand side)
  /-- Every node has a task. -/
  exists_task : ∀ i < plan.size, ∃ t ∈ ts, t.expressionId = e ∧ t.id = first + i

namespace Follows

variable {e first : Int} {plan : Plan} {ts ts' : List Task}

theorem of_tasks (e first : Int) (plan : Plan) (timings : Timings) :
    Follows e plan first (plan.tasks e first timings) where
  at_node t ht _ := by
    obtain ⟨i, n, hn, rfl⟩ := Plan.exists_of_mem_tasks ht
    refine ⟨i, n, rfl, hn, rfl, fun side => ?_⟩
    rw [n.operand_task]
    exact Task.supplied_operand _
  exists_task i hi := by
    have hget := plan.getElem?_tasks e first timings i
    rw [List.getElem?_eq_getElem hi, Option.map_some] at hget
    exact ⟨_, List.mem_of_getElem? hget, rfl, rfl⟩

/-- Only the tasks of the expression matter. -/
theorem congr (h : Follows e plan first ts)
    (hsame : ∀ t, t.expressionId = e → (t ∈ ts' ↔ t ∈ ts)) : Follows e plan first ts' where
  at_node t ht he := by
    obtain ⟨i, n, hid, hn, hop, hside⟩ := h.at_node t ((hsame t he).1 ht) he
    refine ⟨i, n, hid, hn, hop, fun side => (hside side).mono fun u hu hue x hx => ?_⟩
    exact ⟨u, (hsame u hue).2 hu, hue, rfl, hx⟩
  exists_task i hi := by
    obtain ⟨t, ht, he, hid⟩ := h.exists_task i hi
    exact ⟨t, (hsame t he).2 ht, he, hid⟩

/-- The ids of the tasks are the first ones from `first`. -/
theorem mem_id (h : Follows e plan first ts) {t : Task} (ht : t ∈ ts) (he : t.expressionId = e) :
    ∃ i < plan.size, t.id = first + i := by
  obtain ⟨i, n, hid, hn, -⟩ := h.at_node t ht he
  exact ⟨i, (List.getElem?_eq_some_iff.1 hn).1, hid⟩

/-! ## 3. Steps -/

/-- A change of tasks that gives none of them away. -/
theorem map {f : Task → Task} (h : Follows e plan first ts)
    (hid : ∀ t, (f t).id = t.id) (howner : ∀ t, (f t).expressionId = t.expressionId)
    (hop : ∀ t, (f t).operator = t.operator)
    (hside : ∀ t ∈ ts, t.expressionId = e → ∀ side src,
      Task.Supplied e first ts src (t.operand side) →
      Task.Supplied e first (ts.map f) src ((f t).operand side)) :
    Follows e plan first (ts.map f) where
  at_node := by
    refine List.forall_mem_map.2 fun t ht he => ?_
    rw [howner] at he
    obtain ⟨i, n, hi, hn, hoperator, hsides⟩ := h.at_node t ht he
    exact ⟨i, n, (hid t).trans hi, hn, (hop t).trans hoperator,
      fun side => hside t ht he side _ (hsides side)⟩
  exists_task i hi := by
    obtain ⟨t, ht, he, hi⟩ := h.exists_task i hi
    exact ⟨f t, List.mem_map_of_mem ht, (howner t).trans he, (hid t).trans hi⟩

/-- A task that goes out with a worker was not done. -/
theorem handOut (h : Follows e plan first ts) {id : Int}
    (hid : ∀ t ∈ ts, t.id = id → t.status ≠ .done) :
    Follows e plan first (ts.map (Board.handedOut id)) := by
  refine h.map (Board.id_handedOut id) (Board.expressionId_handedOut id)
    (Board.operator_handedOut id) fun t _ _ side src hsupplied => ?_
  rw [Board.operand_handedOut]
  refine hsupplied.mono fun u hu hue x hx => ⟨_, List.mem_map_of_mem hu, ?_⟩
  rw [Board.handedOut, if_neg fun huid => hid u hu huid hx.status]
  exact ⟨hue, rfl, hx⟩

/-- Any value may be reported on a task that is out with a worker. -/
theorem afterValue (h : Follows e plan first ts) {r : Report} {t : Task} (ht : t ∈ ts)
    (hid : t.id = r.id) (he : t.expressionId = e)
    (honly : ∀ u ∈ ts, u.id = r.id → u.status ≠ .done) :
    Follows e plan first (ts.map (Board.afterValue r)) := by
  refine h.map (Board.id_afterValue r) (Board.expressionId_afterValue r)
    (fun u => Board.operator_reported r u) fun u _ _ side src hsupplied => ?_
  rw [Board.operand_afterValue]
  refine Task.Supplied.given ?_ (List.mem_map_of_mem ht)
    ((Board.expressionId_afterValue r t).trans he) ((Board.id_afterValue r t).trans hid)
    (Task.doneWith_afterValue hid)
  exact hsupplied.mono fun v hv hve x hx => ⟨_, List.mem_map_of_mem hv,
    (Board.expressionId_afterValue r v).trans hve, Board.id_afterValue r v,
    hx.afterValue fun hvid => honly v hv hvid hx.status⟩

/-! ## 4. Who waits -/

/-- A node of a tree's plan but the last is the source of a later one. -/
theorem exists_source_of_lt {tree : Tree} {i : Nat} (hi : i + 1 < tree.size) :
    ∃ (k : Nat) (n : Plan.Node) (side : Side), tree.plan.nodes[k]? = some n ∧
      n.source side = .node i := by
  have hmem := (tree.references_perm 0).mem_iff.2 (List.mem_range'_1.2 ⟨Nat.zero_le i, by omega⟩)
  rcases List.mem_append.1 hmem with hmem | hmem
  · obtain ⟨n, hn, href⟩ := List.mem_flatMap.1 hmem
    obtain ⟨k, hk⟩ := List.mem_iff_getElem?.1 hn
    obtain ⟨side, hside⟩ := (n.mem_references_iff i).1 href
    exact ⟨k, n, side, hk, hside⟩
  · -- The root is the last operation, and `i` is not the last.
    cases tree with
    | leaf text => cases hmem
    | node op l r =>
      simp only [Tree.source, Plan.Source.references, List.mem_singleton] at hmem
      simp only [Tree.size] at hi
      omega

/-- A task that is not done is waited for, unless it is the last of its expression. -/
theorem awaited {b : Board} {tree : Tree} (h : Follows e tree.plan first b.tasks.values)
    (hb : b.Coherent) {t : Task} (ht : t ∈ b.tasks.values) (he : t.expressionId = e)
    (hs : t.status ≠ .done) (hlast : t.id + 1 < first + tree.size) :
    ∃ u ∈ b.tasks.values, u.expressionId = e ∧ ∃ side, u.operand side = .pending t.id := by
  obtain ⟨i, hi, hid⟩ := h.mem_id ht he
  obtain ⟨k, n, side, hk, hside⟩ := @exists_source_of_lt tree i (by omega)
  obtain ⟨u, hu, hue, huid⟩ := h.exists_task k (List.getElem?_eq_some_iff.1 hk).1
  obtain ⟨k', n', huid', hk', -, hsupplied⟩ := h.at_node u hu hue
  have hkk : k' = k := by omega
  rw [hkk, hk] at hk'
  cases hk'
  refine ⟨u, hu, hue, side, ?_⟩
  have hoperand := hsupplied side
  rw [hside] at hoperand
  rcases hoperand with hpending | ⟨v, hv, -, hvid, x, hx, -⟩
  · rw [hpending, hid]
  · rw [Board.eq_of_mem hb ht hv (hvid.trans hid.symm)] at hx
    exact absurd hx.status hs

/-- The task to hand out waits for nothing: its operands are literals of its node, and
values of the tasks that the node refers to. -/
theorem at_node_of_peek? {b : Board} (h : Follows e plan first b.tasks.values)
    (hb : b.Coherent) {t : Task} (hpeek : b.peek? = some t) (he : t.expressionId = e) :
    ∃ (i : Nat) (n : Plan.Node), t.id = first + i ∧ plan.nodes[i]? = some n ∧
      t.operator = n.operator ∧ ∀ side, match n.source side with
        | .literal text => t.operand side = .literal text
        | .node j => ∃ u ∈ b.tasks.values, u.expressionId = e ∧ u.id = first + j ∧
            ∃ x, u.DoneWith x ∧ t.operand side = .resolved x := by
  obtain ⟨i, n, hid, hn, hop, hsupplied⟩ := h.at_node t (Board.mem_of_peek? hb hpeek) he
  refine ⟨i, n, hid, hn, hop, fun side => ?_⟩
  have hside := hsupplied side
  cases hsource : n.source side with
  | literal text =>
    rw [hsource] at hside
    exact hside
  | node j =>
    rw [hsource] at hside
    refine hside.resolve_left fun hwaits => ?_
    have hliteral := Board.isLiteral_of_peek? hb hpeek side
    rw [hwaits] at hliteral
    cases hliteral

end Follows

end Reckoner
