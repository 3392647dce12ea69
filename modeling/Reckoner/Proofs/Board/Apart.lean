/-
Reckoner.Proofs.Board.Apart — expressions on one board do not touch each other.

All expressions share the tasks and the indexes of a board. What a board holds
of one expression is said by the tasks of that expression alone
(`Served.spares`): references stay within an expression, so that the waiters of
its tasks are tasks of its own, and its counter is the number of those that are
open. An operation on another expression leaves these tasks as they are. All the
tasks together say what the whole board is (`Served.eq_of_values`).

  1. What a board holds of an expression
  2. The tasks of the other expressions
  3. Operations on the other expressions
  4. Boards with the same tasks
-/
import Reckoner.Proofs.Board.Replay

namespace Reckoner.Board

variable {b b' : Board} {e : Int}

/-! ## 1. What a board holds of an expression -/

/-- A change of the board leaves all that it holds of an expression. -/
structure Spares (b b' : Board) (e : Int) : Prop where
  /-- The tasks are the same, with their status, their operands and their result. -/
  tasks : b'.tasksOf e = b.tasksOf e
  ready : ∀ t ∈ b.tasksOf e, b'.ready.contains t.id = b.ready.contains t.id
  /-- The same tasks wait for theirs. -/
  waitedFor : ∀ t ∈ b.tasksOf e, b'.waiters.get? t.id = b.waiters.get? t.id
  /-- Theirs wait for the same tasks. -/
  waiting : ∀ t ∈ b.tasksOf e, ∀ dep side,
    b'.waiters.get? dep = some ⟨t.id, side⟩ ↔ b.waiters.get? dep = some ⟨t.id, side⟩
  remaining : b'.remaining.get? e = b.remaining.get? e

theorem Spares.refl (b : Board) (e : Int) : b.Spares b e :=
  ⟨rfl, fun _ _ => rfl, fun _ _ => rfl, fun _ _ _ _ => .rfl, rfl⟩

theorem mem_tasksOf_iff (h : b.Coherent) {t : Task} :
    t ∈ b.tasksOf e ↔ b.get? t.id = some t ∧ t.expressionId = e := by
  rw [tasksOf, List.mem_filter, mem_tasks_iff h, beq_iff_eq]

theorem contains_ready_eq (h : b.Coherent) {t : Task} (ht : b.get? t.id = some t) :
    b.ready.contains t.id = t.isRunnable := by
  rw [Bool.eq_iff_iff, h.ready]
  constructor
  · rintro ⟨u, hu, hrun⟩
    rw [ht] at hu
    cases hu
    exact hrun
  · exact fun hrun => ⟨t, ht, hrun⟩

/-- Only tasks of its own expression wait for a task. -/
theorem waiter_iff (h : b.Coherent) {t : Task} (ht : t ∈ b.tasksOf e) (w : Waiter) :
    b.waiters.get? t.id = some w ↔
      ∃ u ∈ b.tasksOf e, u.id = w.task ∧ u.operand w.side = .pending t.id := by
  obtain ⟨hget, rfl⟩ := (mem_tasksOf_iff h).1 ht
  rw [h.waiters]
  constructor
  · rintro ⟨u, hu, ho⟩
    have hid := h.id_eq w.task u hu
    obtain ⟨-, v, hv, howner⟩ := h.backward w.task u w.side t.id hu ho
    rw [hget] at hv
    cases hv
    exact ⟨u, (mem_tasksOf_iff h).2 ⟨by rw [hid, hu], howner.symm⟩, hid, ho⟩
  · rintro ⟨u, hu, hid, ho⟩
    exact ⟨u, hid ▸ ((mem_tasksOf_iff h).1 hu).1, ho⟩

theorem openCount_eq_countP (b : Board) (e : Int) :
    b.openCount e = (b.tasksOf e).countP fun t => !t.status.isFinal := by
  rw [openCount, tasksOf, List.countP_filter]
  exact List.countP_congr fun t _ => by simp [isOpen, and_comm]

/-- The counter of an expression is there if the expression has tasks, and counts
those that have not ended. -/
theorem Served.remaining_eq (h : b.Served) (e : Int) :
    b.remaining.get? e =
      if b.tasksOf e = [] then none
      else some ((b.tasksOf e).countP fun t => !t.status.isFinal) := by
  have hlive := isLive_iff_tasksOf h.reachable.coherent e
  rw [isLive, IdMap.contains_eq_true_iff] at hlive
  rw [← openCount_eq_countP]
  split
  · next hnil =>
    cases hget : b.remaining.get? e with
    | none => rfl
    | some n => exact absurd hnil (hlive.1 ⟨n, hget⟩)
  · next hne =>
    obtain ⟨n, hn⟩ := hlive.2 hne
    rw [hn, h.counted.count_eq e n hn]

/-- What a board holds of an expression is said by its tasks. -/
theorem Served.spares (h : b.Served) (h' : b'.Served) (htasks : b'.tasksOf e = b.tasksOf e) :
    b.Spares b' e := by
  have hcoherent := h.reachable.coherent
  have hcoherent' := h'.reachable.coherent
  have hget : ∀ t ∈ b.tasksOf e, b.get? t.id = some t ∧ b'.get? t.id = some t := by
    intro t ht
    have ht' : t ∈ b'.tasksOf e := htasks ▸ ht
    exact ⟨((mem_tasksOf_iff hcoherent).1 ht).1, ((mem_tasksOf_iff hcoherent').1 ht').1⟩
  constructor
  case tasks => exact htasks
  case ready =>
    intro t ht
    rw [contains_ready_eq hcoherent (hget t ht).1, contains_ready_eq hcoherent' (hget t ht).2]
  case waitedFor =>
    intro t ht
    refine Option.ext fun w => ?_
    rw [waiter_iff hcoherent ht, waiter_iff hcoherent' (htasks ▸ ht), htasks]
  case waiting =>
    intro t ht dep side
    rw [← operand_eq_pending_iff hcoherent ((mem_tasks_iff hcoherent).2 (hget t ht).1),
      ← operand_eq_pending_iff hcoherent' ((mem_tasks_iff hcoherent').2 (hget t ht).2)]
  case remaining => rw [h.remaining_eq, h'.remaining_eq, htasks]

/-! ## 2. The tasks of the other expressions -/

/-- An expression keeps its tasks where all but another one keep theirs. -/
theorem tasksOf_eq_of_others {other : Int} (hne : e ≠ other)
    (h : (b'.tasks.values.filter fun u => u.expressionId != other) =
      b.tasks.values.filter fun u => u.expressionId != other) :
    b'.tasksOf e = b.tasksOf e := by
  have hamong : ∀ ts : List Task, (ts.filter fun u => u.expressionId == e) =
      (ts.filter fun u => u.expressionId != other).filter fun u => u.expressionId == e := by
    intro ts
    rw [List.filter_filter]
    refine List.filter_congr fun u _ => ?_
    by_cases he : u.expressionId = e <;> simp [he, hne]
  rw [tasksOf, tasksOf, hamong, h, ← hamong]

theorem tasksOf_handOut (h : b.Coherent) {t : Task} (ht : b.get? t.id = some t)
    (hne : e ≠ t.expressionId) : (b.handOut t.id t).tasksOf e = b.tasksOf e := by
  refine tasksOf_eq_of_others hne ?_
  rw [values_handOut h ht]
  refine filter_map_of_owner (expressionId_handedOut t.id) fun u hu hu' => ?_
  rw [handedOut, if_neg (id_ne_of_owner h ht hu hu')]

theorem tasksOf_progressed (h : b.Coherent) {r : Report} {t : Task} {unblocked : Option Int}
    (ht : b.get? r.id = some t) (hs : t.status = .computing)
    (hc : Completes b r t (.progressed unblocked) b') (hne : e ≠ t.expressionId) :
    b'.tasksOf e = b.tasksOf e := by
  refine tasksOf_eq_of_others hne ?_
  cases hc with
  | progressed isValue some_left => rw [values_afterValue h ht hs, filter_afterValue h ht]

theorem tasksOf_ended (h : b.Coherent) {r : Report} {t : Task} {o : Outcome}
    (ht : b.get? r.id = some t) (hs : t.status = .computing)
    (hc : Completes b r t (.finished t.expressionId o) b') (hne : e ≠ t.expressionId) :
    (b'.evict t.expressionId).tasksOf e = b.tasksOf e := by
  refine tasksOf_eq_of_others hne ?_
  rw [values_evict_of_completes h ht hs hc rfl, List.filter_filter]
  simp only [Bool.and_self]

/-! ## 3. Operations on the other expressions -/

namespace Served

theorem spares_handOut (h : b.Served) {t : Task} (hpeek : b.peek? = some t)
    (hne : t.expressionId ≠ e) : b.Spares (b.handOut t.id t) e := by
  have hcoherent := h.reachable.coherent
  have hget := get?_of_peek? hcoherent hpeek
  exact h.spares (.claim h (claim?_of_peek? hcoherent hpeek))
    (tasksOf_handOut hcoherent hget hne.symm)

theorem spares_progressed (h : b.Served) {r : Report} {unblocked : Option Int}
    (hcomplete : b.complete r = .ok (.progressed unblocked, b'))
    (hne : ∀ t, b.get? r.id = some t → t.expressionId ≠ e) : b.Spares b' e := by
  obtain ⟨t, ht, hs, hc⟩ := completes_of_complete hcomplete
  exact h.spares (.progressed h hcomplete)
    (tasksOf_progressed h.reachable.coherent ht hs hc (hne t ht).symm)

/-- An expression that ends takes only its own tasks off the board. -/
theorem spares_ended (h : b.Served) {r : Report} {ended : Int} {o : Outcome}
    (hcomplete : b.complete r = .ok (.finished ended o, b'))
    (hne : ∀ t, b.get? r.id = some t → t.expressionId ≠ e) : b.Spares (b'.evict ended) e := by
  obtain ⟨t, ht, hs, hc⟩ := completes_of_complete hcomplete
  have hended := hc.owner_of_finished
  subst hended
  exact h.spares (.finished h hcomplete)
    (tasksOf_ended h.reachable.coherent ht hs hc (hne t ht).symm)

theorem spares_addPlan (h : b.Served) {added : Int} {tokens : List String} {plan : Plan}
    (timings : Timings) (htokens : Plan.ofTokens tokens = .ok plan)
    (hlive : b.isLive added = false) (hne : e ≠ added) :
    b.Spares (b.addPlan added plan timings) e := by
  refine h.spares (.addPlan added timings h htokens hlive) ?_
  rw [tasksOf_addPlan h.reachable.coherent (linked_tasksFor htokens b added timings), if_neg hne,
    List.append_nil]

end Served

/-! ## 4. Boards with the same tasks -/

/-- The indexes of ready tasks and of waiters are read off the tasks. -/
theorem eq_of_remaining (h : b.Coherent) (h' : b'.Coherent)
    (hvalues : b'.tasks.values = b.tasks.values) (hremaining : b'.remaining = b.remaining)
    (hnext : b'.nextId = b.nextId) : b' = b := by
  have hget : ∀ id, b'.get? id = b.get? id := fun id => by
    rw [← find?_id h, ← find?_id h', hvalues]
  have htasks : b'.tasks = b.tasks := IdMap.ext_get? hget
  have hready : b'.ready = b.ready := by
    refine IdMap.ext_get? fun id => Option.ext fun u => ?_
    have hcontains : b'.ready.contains id = b.ready.contains id := by
      rw [Bool.eq_iff_iff, h.ready, h'.ready, hget]
    cases hold : b.ready.get? id <;> cases hnew : b'.ready.get? id <;>
      simp [IdMap.contains, hold, hnew] at hcontains ⊢
  have hwaiters : b'.waiters = b.waiters := by
    refine IdMap.ext_get? fun dep => Option.ext fun w => ?_
    rw [h.waiters, h'.waiters, hget]
  cases b
  cases b'
  cases htasks
  cases hready
  cases hwaiters
  cases hremaining
  cases hnext
  rfl

/-- In the order of a dispatcher the counters are read off the tasks too. -/
theorem Served.eq_of_values (h : b.Served) (h' : b'.Served)
    (hvalues : b'.tasks.values = b.tasks.values) (hnext : b'.nextId = b.nextId) : b' = b := by
  refine eq_of_remaining h.reachable.coherent h'.reachable.coherent hvalues
    (IdMap.ext_get? fun e => ?_) hnext
  rw [h.remaining_eq, h'.remaining_eq, tasksOf, tasksOf, hvalues]

/-- A board without tasks is the empty one, but for the ids it has used up. -/
theorem eq_empty_of_values (h : b.Coherent) (hnil : b.tasks.values = []) :
    b = { empty with nextId := b.nextId } := by
  have hempty : Coherent { empty with nextId := b.nextId } :=
    { coherent_empty with below := fun _ _ h => nomatch h }
  refine eq_of_remaining hempty h hnil (IdMap.ext_get? fun e => ?_) rfl
  have hlive : ¬ b.isLive e = true := by
    rw [isLive_iff_exists_mem h, hnil]
    simp
  exact Option.not_isSome_iff_eq_none.1 hlive

end Reckoner.Board
