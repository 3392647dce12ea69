/-
Reckoner.Proofs.Board.Load — how the load of a board changes.

Two of the numbers of `Board.load` are followed from operation to operation: the
live expressions and the tasks that are out with workers. A plan brings one live
expression and no task that is out, handing out brings one such task, a report
takes it back, and removing an expression takes away the expression and every task
of it that is still out.

  1. Live expressions
  2. Tasks that are out
  3. Which tasks are out
-/
import Reckoner.Proofs.Board.Scan

namespace Reckoner.Board

variable {b b' : Board} {r : Report} {t : Task} {c : Completion} {e : Int} {plan : Plan}
  {timings : Timings}

/-! ## 1. Live expressions -/

/-- A report takes no expression off the board by itself. -/
theorem isLive_of_completes (h : b.Coherent) (ht : b.get? r.id = some t)
    (hc : Completes b r t c b') (e' : Int) : b'.isLive e' = b.isLive e' := by
  have hdone : (b.markDone r t).isLive e' = b.isLive e' := by
    show (b.remaining.insert _ _).contains e' = b.remaining.contains e'
    rw [IdMap.contains_insert]
    cases he : e' == t.expressionId with
    | false => rfl
    | true =>
      have hlive := h.isLive_of_get? ht
      rw [← beq_iff_eq.1 he] at hlive
      exact hlive.symm
  cases hc with
  | failed isError => rfl
  | last isValue none_left => exact hdone
  | progressed isValue some_left =>
    rw [isLive, remaining_resolve]
    exact hdone

theorem expressions_complete (h : b.Coherent) (hcomplete : b.complete r = .ok (c, b')) :
    b'.load.expressions = b.load.expressions := by
  obtain ⟨t, ht, -, hc⟩ := completes_of_complete hcomplete
  exact IdMap.size_eq_of_contains (isLive_of_completes h ht hc)

/-- The tasks of a plan are those of one more expression. -/
theorem expressions_addPlan (hlive : b.isLive e = false) (hsize : plan.size ≠ 0) :
    (b.addPlan e plan timings).load.expressions = b.load.expressions + 1 := by
  show (b.addPlan e plan timings).remaining.size = _
  rw [addPlan_eq]
  simp only [if_neg hsize]
  exact IdMap.size_insert hlive plan.size

theorem expressions_evict (hlive : b.isLive e = true) :
    b.load.expressions = (b.evict e).load.expressions + 1 :=
  IdMap.size_eq_succ hlive (isLive_evict b e)

/-- An expression that ends is one live expression less. -/
theorem expressions_ended (h : b.Coherent) {o : Outcome}
    (hcomplete : b.complete r = .ok (.finished e o, b')) :
    b.load.expressions = (b'.evict e).load.expressions + 1 := by
  obtain ⟨t, ht, -, hc⟩ := completes_of_complete hcomplete
  have hlive := h.isLive_of_get? ht
  rw [hc.owner_of_finished, ← isLive_of_completes h ht hc] at hlive
  rw [← expressions_complete h hcomplete]
  exact expressions_evict hlive

/-! ## 2. Tasks that are out -/

/-- The task is out with a worker. -/
def isOut (t : Task) : Bool := t.status = .computing

theorem computing_eq (b : Board) : b.load.computing = b.tasks.values.countP isOut :=
  List.countP_eq_length_filter.symm

/-- How many tasks of an expression are out. -/
def outOf (b : Board) (e : Int) : Nat := (b.tasksOf e).countP isOut

theorem computing_handOut (ht : b.get? t.id = some t) (hs : t.status = .pending) :
    (b.handOut t.id t).load.computing = b.load.computing + 1 := by
  have hcount := IdMap.countP_values_insert ht isOut { t with status := .computing }
  rw [computing_eq, computing_eq, tasks_handOut]
  simp only [isOut, hs, decide_true, reduceCtorEq, decide_false, Bool.toNat_false,
    Bool.toNat_true] at hcount
  exact hcount

/-- A task that a report is on is out no more. -/
theorem computing_complete (h : b.Coherent) (hcomplete : b.complete r = .ok (c, b')) :
    b.load.computing = b'.load.computing + 1 := by
  obtain ⟨t, ht, hs, hc⟩ := completes_of_complete hcomplete
  have hcount : ∀ t' : Task, isOut t' = false →
      b.tasks.values.countP isOut = (b.tasks.insert r.id t').values.countP isOut + 1 := by
    intro t' ht'
    have hinsert := IdMap.countP_values_insert ht isOut t'
    rw [ht', isOut, hs] at hinsert
    exact hinsert.symm
  have hdone := hcount (doneTask r t) rfl
  rw [computing_eq, computing_eq]
  cases hc with
  | @failed error isError => exact hcount (failedTask r t error) rfl
  | last isValue none_left => exact hdone
  | progressed isValue some_left =>
    rw [values_resolve (h.markDone ht hs), List.countP_map]
    exact hdone

/-- The tasks of an expression that are still out go with it. -/
theorem computing_evict (h : b.Coherent) (e : Int) :
    b.load.computing = (b.evict e).load.computing + b.outOf e := by
  rw [computing_eq, computing_eq, values_evict h.id_eq, outOf, tasksOf, Nat.add_comm,
    List.countP_eq_countP_filter_add _ isOut fun t => t.expressionId == e]
  rfl

/-- The last result of an expression finds none of its tasks out. -/
theorem outOf_of_done (h : b.Coherent) (hcounted : b.Counted) {x : Number}
    (hcomplete : b.complete r = .ok (.finished e (.done x), b')) : b'.outOf e = 0 := by
  obtain ⟨t, ht, hs, hc⟩ := completes_of_complete hcomplete
  cases hc with
  | last isValue none_left =>
    have hopen := hcounted.openCount_markDone h ht hs
    rw [none_left, openCount, List.countP_eq_zero] at hopen
    refine List.countP_eq_zero.2 fun u hu hout => ?_
    obtain ⟨hmem, howner⟩ := List.mem_filter.1 hu
    refine hopen u hmem ?_
    rw [isOpen, howner, of_decide_eq_true hout]
    rfl

/-! ## 3. Which tasks are out -/

/-- The ids of the tasks that are out, lowest first. -/
def outIds (b : Board) : List Int := (b.tasks.values.filter isOut).map (·.id)

theorem length_outIds (b : Board) : b.outIds.length = b.load.computing := by
  rw [outIds, List.length_map]
  rfl

theorem mem_outIds_iff (h : b.Coherent) (id : Int) :
    id ∈ b.outIds ↔ ∃ t, b.get? id = some t ∧ t.status = .computing := by
  rw [outIds, List.mem_map]
  constructor
  · rintro ⟨t, ht, rfl⟩
    obtain ⟨hmem, hout⟩ := List.mem_filter.1 ht
    exact ⟨t, (mem_tasks_iff h).1 hmem, of_decide_eq_true hout⟩
  · rintro ⟨t, ht, hs⟩
    exact ⟨t, List.mem_filter.2 ⟨mem_tasks_of_get? h ht, decide_eq_true hs⟩, h.id_eq id t ht⟩

theorem pairwise_outIds (h : b.Coherent) : b.outIds.Pairwise (· < ·) :=
  (pairwise_id h).sublist (List.filter_sublist.map _)

theorem outIds_addPlan (h : b.Coherent)
    (hl : Task.Linked e b.nextId (b.tasksFor e plan timings)) :
    (b.addPlan e plan timings).outIds = b.outIds := by
  have hnone : (b.tasksFor e plan timings).filter isOut = [] := by
    refine List.filter_eq_nil_iff.2 fun t ht => ?_
    simp [isOut, hl.fresh t ht]
  rw [outIds, outIds, h.values_addPlan hl, List.filter_append, hnone, List.append_nil]

theorem mem_outIds_handOut (h : b.Coherent) (h' : (b.handOut t.id t).Coherent) (id : Int) :
    id ∈ (b.handOut t.id t).outIds ↔ id = t.id ∨ id ∈ b.outIds := by
  rw [mem_outIds_iff h', mem_outIds_iff h]
  show (∃ u, (b.tasks.insert t.id { t with status := .computing }).get? id = some u ∧ _) ↔ _
  rw [IdMap.get?_insert]
  by_cases hid : id = t.id
  · simp [hid]
  · simp only [hid, false_or]
    rfl

/-- A report on a task takes it from those that are out, and no other. -/
theorem mem_outIds_progressed (h : b.Coherent) {unblocked : Option Int}
    (hcomplete : b.complete r = .ok (.progressed unblocked, b')) (id : Int) :
    id ∈ b'.outIds ↔ id ≠ r.id ∧ id ∈ b.outIds := by
  obtain ⟨t, ht, hs, hc⟩ := completes_of_complete hcomplete
  have hout : ∀ u : Task, isOut (afterValue r u) = (u.id != r.id && isOut u) := by
    intro u
    show isOut (reported r u) = _
    rw [reported]
    split
    · next hid => simp [isOut, doneTask, hid]
    · next hid => simp [hid]
  cases hc with
  | progressed isValue some_left =>
    rw [outIds, outIds, values_afterValue h ht hs, List.filter_map, List.map_map]
    simp only [List.mem_map, List.mem_filter, Function.comp_apply, hout, id_afterValue,
      Bool.and_eq_true, bne_iff_ne]
    constructor
    · rintro ⟨u, ⟨hu, hne, hout⟩, rfl⟩
      exact ⟨hne, u, ⟨hu, hout⟩, rfl⟩
    · rintro ⟨hne, u, ⟨hu, hout⟩, rfl⟩
      exact ⟨u, ⟨hu, hne, hout⟩, rfl⟩

/-- A report that ends an expression leaves its tasks where they are. -/
theorem mem_idsOf_finished (h : b.Coherent) {o : Outcome}
    (hcomplete : b.complete r = .ok (.finished e o, b')) (id : Int) :
    id ∈ b'.idsOf e ↔ id ∈ b.idsOf e := by
  obtain ⟨t, ht, -, hc⟩ := completes_of_complete hcomplete
  have howner := hc.owner_of_finished
  have hget : ∃ t', t'.expressionId = e ∧ b'.tasks = b.tasks.insert r.id t' := by
    cases hc with
    | @failed error isError => exact ⟨failedTask r t error, rfl, rfl⟩
    | last isValue none_left => exact ⟨doneTask r t, rfl, rfl⟩
  obtain ⟨t', ht', htasks⟩ := hget
  rw [mem_idsOf_iff (h.complete hcomplete).id_eq, mem_idsOf_iff h.id_eq, get?, htasks,
    IdMap.get?_insert]
  by_cases hid : id = r.id
  · subst hid
    simp [ht', ht, howner]
  · rw [if_neg hid]
    rfl

theorem mem_idsOf_reported (h : b.Coherent) {o : Outcome}
    (hcomplete : b.complete r = .ok (.finished e o, b')) : r.id ∈ b'.idsOf e := by
  obtain ⟨t, ht, -, hc⟩ := completes_of_complete hcomplete
  rw [mem_idsOf_finished h hcomplete, mem_idsOf_iff h.id_eq]
  exact ⟨t, ht, hc.owner_of_finished⟩

/-- The tasks of an expression that has ended are out no more. -/
theorem mem_outIds_ended (h : b.Coherent) {o : Outcome}
    (hcomplete : b.complete r = .ok (.finished e o, b')) (id : Int) :
    id ∈ (b'.evict e).outIds ↔ id ∉ b'.idsOf e ∧ id ∈ b.outIds := by
  obtain ⟨t, ht, hs, hc⟩ := completes_of_complete hcomplete
  have howner := hc.owner_of_finished
  subst howner
  rw [mem_idsOf_finished h hcomplete, mem_idsOf_iff h.id_eq, outIds,
    values_evict_of_completes h ht hs hc rfl, List.filter_filter, List.mem_map]
  constructor
  · rintro ⟨u, hu, rfl⟩
    obtain ⟨hu, hout⟩ := List.mem_filter.1 hu
    rw [Bool.and_eq_true, bne_iff_ne] at hout
    refine ⟨?_, List.mem_map.2 ⟨u, List.mem_filter.2 ⟨hu, hout.1⟩, rfl⟩⟩
    rintro ⟨v, hv, hve⟩
    rw [(mem_tasks_iff h).1 hu] at hv
    cases hv
    exact hout.2 hve
  · rintro ⟨hnot, hmem⟩
    obtain ⟨u, hu, rfl⟩ := List.mem_map.1 hmem
    obtain ⟨hu, hout⟩ := List.mem_filter.1 hu
    refine ⟨u, List.mem_filter.2 ⟨hu, ?_⟩, rfl⟩
    rw [hout, Bool.true_and, bne_iff_ne]
    exact fun hue => hnot ⟨u, (mem_tasks_iff h).1 hu, hue⟩

end Reckoner.Board
