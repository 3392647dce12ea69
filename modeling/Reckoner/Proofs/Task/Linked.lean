/-
Reckoner.Proofs.Task.Linked — the tasks that a plan becomes.

Tasks refer to each other by id. `Linked` says of the tasks of one plan all that
a board relies on: consecutive ids, references to earlier tasks of the same
plan, and no task referred to twice. The tasks of every plan that some tokens
have are linked (`linked_plan`), because such a plan is the plan of a tree.

  1. The operands of a task
  2. Linked tasks
  3. The tasks of a plan
-/
import Reckoner.Board
import Reckoner.Proofs.Formula.Tree

namespace Reckoner

/-! ## 1. The operands of a task -/

namespace Task

/-- The operand on one side of a task. -/
def operand (t : Task) : Side → Operand
  | .left => t.left
  | .right => t.right

theorem operand_congr {t u : Task} (hl : t.left = u.left) (hr : t.right = u.right)
    (side : Side) : t.operand side = u.operand side := by
  cases side
  · exact hl
  · exact hr

theorem operand_withSide (t : Task) (side s : Side) (o : Operand) :
    (t.withSide side o).operand s = if s = side then o else t.operand s := by
  cases side <;> cases s <;> rfl

@[simp] theorem id_withSide (t : Task) (side : Side) (o : Operand) :
    (t.withSide side o).id = t.id := by
  cases side <;> rfl

@[simp] theorem expressionId_withSide (t : Task) (side : Side) (o : Operand) :
    (t.withSide side o).expressionId = t.expressionId := by
  cases side <;> rfl

@[simp] theorem status_withSide (t : Task) (side : Side) (o : Operand) :
    (t.withSide side o).status = t.status := by
  cases side <;> rfl

theorem mem_references_iff (t : Task) (dep : Int) (side : Side) :
    (dep, side) ∈ t.references ↔ t.operand side = .pending dep := by
  unfold references
  cases hl : t.left <;> cases hr : t.right <;> cases side <;>
    simp [operand, hl, hr, Operand.dependency?, eq_comm]

theorem isRunnable_iff (t : Task) :
    t.isRunnable = true ↔ t.status = .pending ∧ ∀ side, (t.operand side).isLiteral = true := by
  unfold isRunnable
  constructor
  · intro h
    simp only [Bool.and_eq_true, decide_eq_true_eq] at h
    exact ⟨h.1.1, fun side => by cases side; exact h.1.2; exact h.2⟩
  · rintro ⟨hs, ho⟩
    simp only [Bool.and_eq_true, decide_eq_true_eq]
    exact ⟨⟨hs, ho .left⟩, ho .right⟩

theorem not_isRunnable_of_status {t : Task} (h : t.status ≠ .pending) : t.isRunnable = false := by
  rw [← Bool.not_eq_true, isRunnable_iff]
  exact fun hrun => h hrun.1

theorem not_isRunnable_of_pending {t : Task} {side : Side} {dep : Int}
    (h : t.operand side = .pending dep) : t.isRunnable = false := by
  rw [← Bool.not_eq_true, isRunnable_iff]
  rintro ⟨-, ho⟩
  have := ho side
  rw [h] at this
  cases this

/-! ## 2. Linked tasks -/

/-- The ids that some tasks wait for. -/
def dependencies (ts : List Task) : List Int := (ts.flatMap references).map (·.1)

theorem mem_dependencies_iff (ts : List Task) (dep : Int) :
    dep ∈ dependencies ts ↔ ∃ t ∈ ts, ∃ side, t.operand side = .pending dep := by
  simp only [dependencies, List.mem_map, List.mem_flatMap, Prod.exists]
  constructor
  · rintro ⟨d, side, ⟨t, ht, hr⟩, rfl⟩
    exact ⟨t, ht, side, (mem_references_iff t d side).1 hr⟩
  · rintro ⟨t, ht, side, ho⟩
    exact ⟨dep, side, ⟨t, ht, (mem_references_iff t dep side).2 ho⟩, rfl⟩

/-- Tasks of one expression under consecutive ids from `first`, none of them
begun, that refer to earlier ones, each to others than the rest. -/
structure Linked (expressionId first : Int) (ts : List Task) : Prop where
  id_eq : ∀ (i : Nat) (t : Task), ts[i]? = some t → t.id = first + i
  owner : ∀ t ∈ ts, t.expressionId = expressionId
  fresh : ∀ t ∈ ts, t.status = .pending
  backward : ∀ t ∈ ts, ∀ side dep, t.operand side = .pending dep → first ≤ dep ∧ dep < t.id
  unique : (dependencies ts).Nodup
  /-- Only the last task is waited for by no other. -/
  awaited : ∀ t ∈ ts, t.id + 1 < first + ts.length → t.id ∈ dependencies ts

namespace Linked

variable {e first : Int} {ts : List Task}

/-- The ids are those from `first` on. -/
theorem mem_id (h : Linked e first ts) {t : Task} (ht : t ∈ ts) :
    first ≤ t.id ∧ t.id < first + ts.length := by
  obtain ⟨i, hi⟩ := List.mem_iff_getElem?.1 ht
  have hlt := (List.getElem?_eq_some_iff.1 hi).1
  have := h.id_eq i t hi
  omega

theorem exists_of_id (h : Linked e first ts) {id : Int} (hlow : first ≤ id)
    (hhigh : id < first + ts.length) : ∃ t ∈ ts, t.id = id := by
  have hi : (id - first).toNat < ts.length := by omega
  refine ⟨ts[(id - first).toNat], List.getElem_mem hi, ?_⟩
  have := h.id_eq _ _ (List.getElem?_eq_getElem hi)
  omega

theorem pairwise_id (h : Linked e first ts) : (ts.map (·.id)).Pairwise (· < ·) := by
  refine List.pairwise_iff_getElem.2 fun i j hi hj hij => ?_
  simp only [List.length_map] at hi hj
  simp only [List.getElem_map]
  rw [h.id_eq i _ (List.getElem?_eq_getElem hi), h.id_eq j _ (List.getElem?_eq_getElem hj)]
  omega

end Linked

end Task

/-! ## 3. The tasks of a plan -/

namespace Plan

theorem Source.literal_of_operand {src : Source} {first : Int} {text : String}
    (h : src.operand first = .literal text) : src = .literal text := by
  cases src with
  | literal text' =>
    cases h
    rfl
  | node i => cases h

/-- The task of one node. -/
def Node.task (n : Node) (expressionId first : Int) (timings : Timings) (index : Nat) : Task where
  id := first + index
  expressionId
  left := n.left.operand first
  right := n.right.operand first
  operator := n.operator
  durationMs := timings.cost n.operator
  status := .pending

theorem getElem?_tasksFrom (e first : Int) (timings : Timings) (index : Nat) (ns : List Node)
    (i : Nat) : (tasksFrom e first timings index ns)[i]? =
      (ns[i]?).map fun n => n.task e first timings (index + i) := by
  induction ns generalizing index i with
  | nil => simp [tasksFrom]
  | cons n ns ih =>
    cases i with
    | zero => rfl
    | succ i =>
      rw [tasksFrom, List.getElem?_cons_succ, List.getElem?_cons_succ, ih]
      rw [Nat.add_right_comm, Nat.add_assoc]

theorem getElem?_tasks (p : Plan) (e first : Int) (timings : Timings) (i : Nat) :
    (p.tasks e first timings)[i]? = (p.nodes[i]?).map fun n => n.task e first timings i := by
  rw [tasks, getElem?_tasksFrom, Nat.zero_add]

@[simp] theorem length_tasks (p : Plan) (e first : Int) (timings : Timings) :
    (p.tasks e first timings).length = p.size := by
  suffices h : ∀ index ns, (tasksFrom e first timings index ns).length = ns.length from h 0 p.nodes
  intro index ns
  induction ns generalizing index with
  | nil => rfl
  | cons n ns ih => simp [tasksFrom, ih]

theorem references_task (n : Node) (e first : Int) (timings : Timings) (index : Nat) :
    ((n.task e first timings index).references).map (·.1) =
      n.references.map fun j : Nat => first + j := by
  obtain ⟨left, right, op⟩ := n
  cases left <;> cases right <;> rfl

theorem dependencies_tasksFrom (e first : Int) (timings : Timings) (index : Nat)
    (ns : List Node) : Task.dependencies (tasksFrom e first timings index ns) =
      (ns.flatMap Node.references).map fun j : Nat => first + j := by
  induction ns generalizing index with
  | nil => rfl
  | cons n ns ih =>
    have ih' := ih (index + 1)
    unfold Task.dependencies at ih' ⊢
    rw [tasksFrom, List.flatMap_cons, List.map_append, ih', List.flatMap_cons, List.map_append]
    congr 1
    exact references_task n e first timings index

theorem exists_of_mem_tasks {p : Plan} {e first : Int} {timings : Timings} {t : Task}
    (h : t ∈ p.tasks e first timings) :
    ∃ (i : Nat) (n : Node), p.nodes[i]? = some n ∧ t = n.task e first timings i := by
  obtain ⟨i, hi⟩ := List.mem_iff_getElem?.1 h
  rw [getElem?_tasks, Option.map_eq_some_iff] at hi
  obtain ⟨n, hn, rfl⟩ := hi
  exact ⟨i, n, hn, rfl⟩

theorem mem_references_of_operand {n : Node} {e first : Int} {timings : Timings} {index : Nat}
    {side : Side} {dep : Int}
    (h : (n.task e first timings index).operand side = .pending dep) :
    ∃ j ∈ n.references, dep = first + j := by
  have hmem : dep ∈ ((n.task e first timings index).references).map (·.1) :=
    List.mem_map.2 ⟨(dep, side), (Task.mem_references_iff _ _ _).2 h, rfl⟩
  rw [references_task] at hmem
  obtain ⟨j, hj, rfl⟩ := List.mem_map.1 hmem
  exact ⟨j, hj, rfl⟩

/-- The tasks of a tree's plan are linked. -/
theorem linked_plan (t : Tree) (e first : Int) (timings : Timings) :
    Task.Linked e first (t.plan.tasks e first timings) where
  id_eq i task h := by
    rw [getElem?_tasks, Option.map_eq_some_iff] at h
    obtain ⟨n, -, rfl⟩ := h
    rfl
  owner task h := by
    obtain ⟨i, n, -, rfl⟩ := exists_of_mem_tasks h
    rfl
  fresh task h := by
    obtain ⟨i, n, -, rfl⟩ := exists_of_mem_tasks h
    rfl
  backward task h side dep hdep := by
    obtain ⟨i, n, hn, rfl⟩ := exists_of_mem_tasks h
    obtain ⟨j, hj, rfl⟩ := mem_references_of_operand hdep
    have := Tree.references_lt hn hj
    simp only [Node.task]
    omega
  unique := by
    rw [tasks, dependencies_tasksFrom]
    have hnd : ((t.nodes 0).flatMap Node.references).Nodup :=
      (List.nodup_append.1 ((t.references_perm 0).nodup_iff.2 List.nodup_range')).1
    exact List.Pairwise.map _ (fun a b hab => by omega) hnd
  awaited task h hlast := by
    obtain ⟨i, n, hn, rfl⟩ := exists_of_mem_tasks h
    rw [length_tasks, Tree.size_plan] at hlast
    rw [tasks, dependencies_tasksFrom, List.mem_map]
    refine ⟨i, ?_, rfl⟩
    simp only [Node.task] at hlast
    have hmem := (t.references_perm 0).mem_iff.2 (List.mem_range'_1.2 ⟨Nat.zero_le i, by omega⟩)
    rcases List.mem_append.1 hmem with hmem | hmem
    · exact hmem
    · -- The root is the last operation, and `i` is not the last.
      cases t with
      | leaf text => cases hmem
      | node op l r =>
        simp only [Tree.source, Source.references, List.mem_singleton] at hmem
        simp only [Tree.size] at hlast
        omega

end Plan

end Reckoner
