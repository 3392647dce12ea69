/-
Reckoner.Proofs.Board.Tasks — what holds of every task on a board.

A task comes on a board as its plan says, is handed out while it is pending, and
changes once more with each accepted value. What these steps keep holds of every task
that a dispatcher ever has on its board (`Served.forall_tasks`). So no literal is ever
mistaken for a reference, whichever values were reported, and a task that has not
ended has neither a result nor an error.

  1. What plans bring and steps keep
  2. Literals are no references
  3. Open tasks have no result
-/
import Reckoner.Proofs.Board.Plain

namespace Reckoner

namespace Board

/-! ## 1. What plans bring and steps keep -/

/-- A property of tasks that the tasks of plans have, and that tasks keep when they
are handed out and when a value is accepted. -/
structure KeptByTasks (P : Task → Prop) : Prop where
  plan {tokens : List String} {plan : Plan} (e : Int) (b : Board) (timings : Timings) {t : Task} :
    Plan.ofTokens tokens = .ok plan → t ∈ b.tasksFor e plan timings → P t
  handedOut {t : Task} : P t → t.status = .pending → P { t with status := .computing }
  afterValue {t : Task} (r : Report) : P t → P (afterValue r t)

/-- What steps keep holds of every task on a board. -/
theorem Served.forall_tasks {P : Task → Prop} (hP : KeptByTasks P) {b : Board} (h : b.Served) :
    ∀ t ∈ b.tasks.values, P t := by
  induction h with
  | empty => exact fun t ht => nomatch ht
  | @addPlan b tokens plan e timings hserved hplan _ ih =>
    intro t ht
    rw [hserved.reachable.coherent.values_addPlan (linked_tasksFor hplan _ e timings)] at ht
    exact (List.mem_append.1 ht).elim (ih t) (hP.plan e b timings hplan)
  | @claim b b' t' hserved hclaim ih =>
    have hcoherent := hserved.reachable.coherent
    rw [claim?_eq hcoherent, Option.map_eq_some_iff] at hclaim
    obtain ⟨t, hpeek, heq⟩ := hclaim
    cases heq
    have ht := get?_of_peek? hcoherent hpeek
    have hmem := mem_tasks_of_get? hcoherent ht
    have hpending := ((Task.isRunnable_iff t).1 (isRunnable_of_peek? hcoherent hpeek)).1
    rw [values_handOut hcoherent ht]
    refine List.forall_mem_map.2 fun u hu => ?_
    rw [handedOut]
    split
    · next hid =>
      have hu' := (mem_tasks_iff hcoherent).1 hu
      rw [hid, ht] at hu'
      cases hu'
      exact hP.handedOut (ih t hmem) hpending
    · exact ih u hu
  | progressed hserved hcomplete ih =>
    have hcoherent := hserved.reachable.coherent
    obtain ⟨t, ht, hs, hcompletes⟩ := completes_of_complete hcomplete
    cases hcompletes
    rw [values_afterValue hcoherent ht hs]
    exact List.forall_mem_map.2 fun u hu => hP.afterValue _ (ih u hu)
  | finished hserved hcomplete ih =>
    have hcoherent := hserved.reachable.coherent
    obtain ⟨t, ht, hs, hcompletes⟩ := completes_of_complete hcomplete
    obtain rfl := hcompletes.owner_of_finished
    rw [values_evict_of_completes hcoherent ht hs hcompletes rfl]
    exact fun u hu => ih u (List.mem_filter.1 hu).1
  | evict e hserved ih =>
    rw [values_evict hserved.reachable.coherent.id_eq]
    exact fun u hu => ih u (List.mem_filter.1 hu).1

/-- A kind of text to which the literals of formulas and all results belong is that of
every literal. -/
theorem keptByTasks_literalsAre {P : String → Prop} (hliteral : ∀ s, Plan.isLiteral s = true → P s)
    (hvalue : ∀ x : Number, P x.sixPlaces) : KeptByTasks (Task.LiteralsAre P) where
  plan _ _ _ _ hplan ht := Task.literalsAre_of_mem_tasksFor hliteral hplan ht
  handedOut h _ := h
  afterValue r h := (h.reported r).given hvalue r.id r.result

end Board

/-! ## 2. Literals are no references -/

theorem Operand.reference?_of_not_isReference {s : String} (h : isReference s = false) :
    reference? s.toList = none := by
  rw [isReference] at h
  unfold reference?
  split
  · next heq =>
    rw [heq] at h
    cases h
  · rfl

namespace Board

theorem keptByTasks_unambiguous : KeptByTasks Task.Unambiguous :=
  keptByTasks_literalsAre (fun _ => isReference_of_isLiteral) isReference_sixPlaces

theorem Served.unambiguous {b : Board} (h : b.Served) {t : Task} (ht : t ∈ b.tasks.values) :
    t.Unambiguous :=
  h.forall_tasks keptByTasks_unambiguous t ht

end Board

/-! ## 3. Open tasks have no result -/

/-- The task has ended, or there is neither a result nor an error yet. -/
def Task.OpenOrReported (t : Task) : Prop :=
  t.status.isFinal = false → t.result = none ∧ t.error = none

namespace Board

theorem keptByTasks_openOrReported : KeptByTasks Task.OpenOrReported where
  plan _ _ _ _ _ ht := by
    obtain ⟨i, n, -, rfl⟩ := Plan.exists_of_mem_tasks ht
    exact fun _ => ⟨rfl, rfl⟩
  handedOut h hs := fun _ => h (by rw [hs]; rfl)
  afterValue {t} r h := by
    show (reported r t).OpenOrReported
    rw [reported]
    split
    · intro hopen
      cases hopen
    · exact h

theorem Served.openOrReported {b : Board} (h : b.Served) {t : Task} (ht : t ∈ b.tasks.values) :
    t.OpenOrReported :=
  h.forall_tasks keptByTasks_openOrReported t ht

end Board

end Reckoner
