/-
Reckoner.Proofs.Board.Log — the tasks on a board and the reports that were taken.

A board keeps no list of the reports that it has taken; it counts what its expressions
still lack. `Logged` compares its tasks with that list: a task has ended if a value has
been reported on it, and then it has the value of its only report. So an expression
lacks as many results as it has tasks without a report (`Logged.lacking_add`), and when
it lacks one only, that is the result of its last task.

  1. Tasks and reports
  2. What steps keep
  3. The reports on an expression
-/
import Reckoner.Proofs.Board.Verdict
import Reckoner.Proofs.Task.Following

namespace Reckoner.Board

variable {b b' : Board} {log : List Report} {e first : Int}

/-! ## 1. Tasks and reports -/

/-- The tasks that have ended are those with a report on them, which brought a value. -/
structure Logged (b : Board) (log : List Report) : Prop where
  nodup : (log.map (·.id)).Nodup
  below : ∀ r ∈ log, r.id < b.nextId
  value : ∀ r ∈ log, ∀ t ∈ b.tasks.values, t.id = r.id →
    r.errorText? = none ∧ t.DoneWith r.result
  reported : ∀ t ∈ b.tasks.values, t.status.isFinal = true → ∃ r ∈ log, r.id = t.id

theorem logged_empty : empty.Logged [] :=
  ⟨.nil, fun _ h => (nomatch h), fun _ h => (nomatch h), fun _ h => nomatch h⟩

namespace Logged

/-- There is no report on a task that has not ended. -/
theorem id_ne (h : b.Logged log) {t : Task} (ht : t ∈ b.tasks.values)
    (hopen : t.status.isFinal = false) {r : Report} (hr : r ∈ log) : t.id ≠ r.id := by
  intro hid
  rw [(h.value r hr t ht hid).2.status] at hopen
  cases hopen

/-! ## 2. What steps keep -/

/-- Tasks that are new or have changed have not ended. -/
theorem of_tasks (h : b.Logged log) (hnext : b.nextId ≤ b'.nextId)
    (horigin : ∀ u ∈ b'.tasks.values, u ∈ b.tasks.values ∨ u.status.isFinal = false ∧
      (b.nextId ≤ u.id ∨ ∃ t ∈ b.tasks.values, t.id = u.id ∧ t.status.isFinal = false)) :
    b'.Logged log where
  nodup := h.nodup
  below r hr := Int.lt_of_lt_of_le (h.below r hr) hnext
  value r hr u hu hid := by
    rcases horigin u hu with hmem | ⟨-, hnew | ⟨t, ht, htid, hopen⟩⟩
    · exact h.value r hr u hmem hid
    · have hlow := h.below r hr
      omega
    · exact absurd (htid.trans hid) (h.id_ne ht hopen hr)
  reported u hu hfinal := by
    rcases horigin u hu with hmem | ⟨hopen, -⟩
    · exact h.reported u hmem hfinal
    · rw [hopen] at hfinal
      cases hfinal

theorem addPlan (h : b.Logged log) (hb : b.Coherent) {plan : Plan} {timings : Timings}
    (hl : Task.Linked e b.nextId (b.tasksFor e plan timings)) :
    (b.addPlan e plan timings).Logged log := by
  refine h.of_tasks (Int.le_add_of_nonneg_right (Int.natCast_nonneg plan.size)) fun u hu => ?_
  rw [hb.values_addPlan hl] at hu
  rcases List.mem_append.1 hu with hu | hu
  · exact .inl hu
  · exact .inr ⟨by rw [hl.fresh u hu]; rfl, .inl (hl.mem_id hu).1⟩

theorem handOut (h : b.Logged log) (hb : b.Coherent) {t : Task} (hpeek : b.peek? = some t) :
    (b.handOut t.id t).Logged log := by
  have hget := get?_of_peek? hb hpeek
  have hs := status_of_peek? hb hpeek
  refine h.of_tasks (Int.le_refl _) ?_
  rw [values_handOut hb hget]
  refine List.forall_mem_map.2 fun u hu => ?_
  rw [handedOut]
  split
  · next hid =>
    rw [eq_of_id_eq hb hget hu hid]
    exact .inr ⟨rfl, .inr ⟨t, mem_of_peek? hb hpeek, rfl, by rw [hs]; rfl⟩⟩
  · exact .inl hu

/-- One more report, on a task that is out: what there is of its task on the board
afterwards has its value. -/
theorem append (h : b.Logged log) (hb : b.Coherent) {r : Report} {t : Task}
    (ht : b.get? r.id = some t) (hs : t.status = .computing) (hnext : b'.nextId = b.nextId)
    (hother : ∀ u ∈ b'.tasks.values, u.id ≠ r.id →
      (∀ r' ∈ log, u.id = r'.id → r'.errorText? = none ∧ u.DoneWith r'.result) ∧
      (u.status.isFinal = true → ∃ r' ∈ log, r'.id = u.id))
    (hown : ∀ u ∈ b'.tasks.values, u.id = r.id → r.errorText? = none ∧ u.DoneWith r.result) :
    b'.Logged (log ++ [r]) := by
  have hid := hb.id_eq r.id t ht
  have hne : ∀ r' ∈ log, r'.id ≠ r.id := fun r' hr' heq =>
    h.id_ne (mem_tasks_of_get? hb ht) (by rw [hs]; rfl) hr' (hid.trans heq.symm)
  refine ⟨?_, fun r' hr' => ?_, fun r' hr' u hu huid => ?_, fun u hu hfinal => ?_⟩
  · rw [List.map_append, List.nodup_append]
    refine ⟨h.nodup, List.nodup_singleton _, ?_⟩
    rintro i hi j hj rfl
    obtain ⟨r', hr', rfl⟩ := List.mem_map.1 hi
    exact hne r' hr' (List.mem_singleton.1 hj)
  · rw [hnext]
    rcases List.mem_append.1 hr' with hr' | hr'
    · exact h.below r' hr'
    · rw [List.mem_singleton.1 hr']
      exact hb.below r.id t ht
  · rcases List.mem_append.1 hr' with hr' | hr'
    · exact (hother u hu fun heq => hne r' hr' (huid.symm.trans heq)).1 r' hr' huid
    · rw [List.mem_singleton.1 hr'] at huid ⊢
      exact hown u hu huid
  · by_cases huid : u.id = r.id
    · exact ⟨r, List.mem_append_right _ List.mem_cons_self, huid.symm⟩
    · obtain ⟨r', hr', heq⟩ := (hother u hu huid).2 hfinal
      exact ⟨r', List.mem_append_left _ hr', heq⟩

theorem progressed (h : b.Logged log) (hb : b.Coherent) {r : Report} {t : Task}
    (ht : b.get? r.id = some t) (hs : t.status = .computing) (hvalue : r.errorText? = none)
    (hvalues : b'.tasks.values = b.tasks.values.map (afterValue r))
    (hnext : b'.nextId = b.nextId) : b'.Logged (log ++ [r]) := by
  refine h.append hb ht hs hnext ?_ ?_ <;> rw [hvalues] <;> refine List.forall_mem_map.2 ?_
  · intro u hu hid
    rw [id_afterValue] at hid ⊢
    refine ⟨fun r' hr' heq => ?_, fun hfinal => ?_⟩
    · obtain ⟨herror, hdone⟩ := h.value r' hr' u hu heq
      exact ⟨herror, hdone.afterValue hid⟩
    · rw [status_afterValue hid] at hfinal
      exact h.reported u hu hfinal
  · intro u _ hid
    rw [id_afterValue] at hid
    exact ⟨hvalue, Task.doneWith_afterValue hid⟩

theorem ended (h : b.Logged log) (hb : b.Coherent) {r : Report} {t : Task}
    (ht : b.get? r.id = some t) (hs : t.status = .computing)
    (hvalues : b'.tasks.values = b.tasks.values.filter fun u => u.expressionId != t.expressionId)
    (hnext : b'.nextId = b.nextId) : b'.Logged (log ++ [r]) := by
  have hmem : ∀ u ∈ b'.tasks.values, u ∈ b.tasks.values ∧ u.expressionId ≠ t.expressionId := by
    intro u hu
    rw [hvalues, List.mem_filter, bne_iff_ne] at hu
    exact hu
  refine h.append hb ht hs hnext (fun u hu _ => ?_) fun u hu hid => ?_
  · obtain ⟨hu, -⟩ := hmem u hu
    exact ⟨fun r' hr' => h.value r' hr' u hu, h.reported u hu⟩
  · -- The task of the report has left the board.
    obtain ⟨hu, hne⟩ := hmem u hu
    rw [eq_of_id_eq hb ht hu hid] at hne
    exact absurd rfl hne

end Logged

/-! ## 3. The reports on an expression -/

/-- The reports on the tasks of an expression that is live. -/
def reportsOn (b : Board) (log : List Report) (e : Int) : List Report :=
  log.filter fun r => r.id ∈ b.idsOf e

theorem mem_reportsOn {r : Report} : r ∈ b.reportsOn log e ↔ r ∈ log ∧ r.id ∈ b.idsOf e := by
  rw [reportsOn, List.mem_filter, decide_eq_true_eq]

namespace Logged

theorem errorText?_of_mem (h : b.Logged log) (hb : b.Coherent) {r : Report}
    (hr : r ∈ b.reportsOn log e) : r.errorText? = none := by
  obtain ⟨hlog, hid⟩ := mem_reportsOn.1 hr
  obtain ⟨t, ht, -⟩ := (mem_idsOf_iff hb.id_eq e r.id).1 hid
  exact (h.value r hlog t (mem_tasks_of_get? hb ht) (hb.id_eq r.id t ht)).1

theorem nodup_reportsOn (h : b.Logged log) (e : Int) : ((b.reportsOn log e).map (·.id)).Nodup :=
  h.nodup.sublist (List.filter_sublist.map _)

/-- There is one report on each task that has ended. -/
theorem length_reportsOn (h : b.Logged log) (hb : b.Coherent) (e : Int) :
    (b.reportsOn log e).length = (b.tasksOf e).countP fun t => t.status.isFinal := by
  have hids : ((b.tasksOf e).filter fun t => t.status.isFinal).map (·.id) |>.Nodup :=
    ((pairwise_id hb).imp Int.ne_of_lt).sublist
      ((List.filter_sublist.trans List.filter_sublist).map _)
  have hperm := (List.perm_ext_iff_of_nodup (h.nodup_reportsOn e) hids).2 fun id => by
    simp only [List.mem_map, List.mem_filter, mem_reportsOn, mem_tasksOf_iff hb]
    constructor
    · rintro ⟨r, ⟨hr, hid⟩, rfl⟩
      obtain ⟨t, ht, he⟩ := (mem_idsOf_iff hb.id_eq e r.id).1 hid
      have htid := hb.id_eq r.id t ht
      have hdone := (h.value r hr t (mem_tasks_of_get? hb ht) htid).2
      exact ⟨t, ⟨⟨by rw [htid, ht], he⟩, by rw [hdone.status]; rfl⟩, htid⟩
    · rintro ⟨t, ⟨⟨ht, he⟩, hfinal⟩, rfl⟩
      obtain ⟨r, hr, hid⟩ := h.reported t ((mem_tasks_iff hb).2 ht) hfinal
      exact ⟨r, ⟨hr, (mem_idsOf_iff hb.id_eq e r.id).2 ⟨t, by rw [hid, ht], he⟩⟩, hid⟩
  rw [List.countP_eq_length_filter, ← List.length_map, hperm.length_eq, List.length_map]

/-- An expression lacks the results of the tasks that there is no report on. -/
theorem lacking_add (h : b.Logged log) (hb : b.Served) {id : Int} {t : Task}
    (ht : b.get? id = some t) :
    b.lacking t.expressionId + (b.reportsOn log t.expressionId).length =
      (b.idsOf t.expressionId).length := by
  rw [hb.counted.lacking_eq hb.reachable.coherent ht, openCount_eq_countP,
    h.length_reportsOn hb.reachable.coherent, idsOf, List.length_map,
    List.length_eq_countP_add_countP (fun u : Task => u.status.isFinal), Nat.add_comm]
  congr 1
  exact List.countP_congr fun u _ => by simp

end Logged

/-- The ids of an expression's tasks are those of the nodes of its plan. -/
theorem idsOf_of_follows (hb : b.Coherent) {plan : Plan}
    (h : Follows e plan first b.tasks.values) :
    b.idsOf e = (List.range plan.size).map fun i : Nat => first + i := by
  refine List.Pairwise.eq_of_mem_iff (r := (· < ·)) ?_ ?_ fun id => ?_
  · exact (pairwise_id hb).sublist (List.filter_sublist.map _)
  · exact List.pairwise_map.2 (List.pairwise_lt_range.imp fun hlt => by omega)
  · rw [mem_idsOf_iff hb.id_eq, List.mem_map]
    constructor
    · rintro ⟨t, ht, he⟩
      obtain ⟨i, hi, hid⟩ := h.mem_id (mem_tasks_of_get? hb ht) he
      exact ⟨i, List.mem_range.2 hi, by rw [← hid, hb.id_eq id t ht]⟩
    · rintro ⟨i, hi, rfl⟩
      obtain ⟨t, ht, he, hid⟩ := h.exists_task i (List.mem_range.1 hi)
      exact ⟨t, by rw [← hid, ← mem_tasks_iff hb]; exact ht, he⟩

end Reckoner.Board
