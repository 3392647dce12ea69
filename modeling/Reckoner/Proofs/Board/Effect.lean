/-
Reckoner.Proofs.Board.Effect — what each operation does to a board.

One lemma for each operation says everything it can do, so that no later proof
opens an operation. Handing out a task and taking a report are given as
inversions (`claim?_eq_some`, `completes_of_complete`), the rest as equations.

  1. Handing out a task
  2. Taking a report
  3. Putting a result in its place
  4. Admitting an expression
  5. Removing an expression
-/
import Reckoner.Proofs.IdMap
import Reckoner.Proofs.Task.Linked

namespace Reckoner.Board

/-! ## 1. Handing out a task -/

/-- The board once the task of an id is out with a worker. -/
def handOut (b : Board) (id : Int) (t : Task) : Board :=
  { b with tasks := b.tasks.insert id { t with status := .computing }, ready := b.ready.erase id }

theorem tasks_handOut (b : Board) (id : Int) (t : Task) :
    (b.handOut id t).tasks = b.tasks.insert id { t with status := .computing } := rfl

theorem claim?_eq_some {b b' : Board} {t' : Task} (h : b.claim? = some (t', b')) :
    ∃ id t, b.ready.least? = some (id, ()) ∧ b.get? id = some t ∧
      t' = { t with status := .computing } ∧ b' = b.handOut id t := by
  rw [claim?] at h
  split at h
  · cases h
  · next id u hleast =>
    split at h
    · cases h
    · next t ht =>
      cases h
      exact ⟨id, t, hleast, ht, rfl, rfl⟩

/-! ## 2. Taking a report -/

/-- The number of results an expression lacks, as a report finds it. -/
def lacking (b : Board) (expressionId : Int) : Nat := (b.remaining.get? expressionId).getD 1

/-- A task that has failed. -/
def failedTask (r : Report) (t : Task) (error : String) : Task :=
  { t with status := .error, result := some r.result, error := some error }

/-- A task that is done. -/
def doneTask (r : Report) (t : Task) : Task :=
  { t with status := .done, result := some r.result }

/-- The board once a task has failed. -/
def markFailed (b : Board) (r : Report) (t : Task) (error : String) : Board :=
  { b with tasks := b.tasks.insert r.id (failedTask r t error) }

/-- The board once a task is done and counted. -/
def markDone (b : Board) (r : Report) (t : Task) : Board :=
  { b with
    tasks := b.tasks.insert r.id (doneTask r t)
    remaining := b.remaining.insert t.expressionId (b.lacking t.expressionId - 1) }

theorem tasks_markFailed (b : Board) (r : Report) (t : Task) (error : String) :
    (b.markFailed r t error).tasks = b.tasks.insert r.id (failedTask r t error) := rfl

theorem tasks_markDone (b : Board) (r : Report) (t : Task) :
    (b.markDone r t).tasks = b.tasks.insert r.id (doneTask r t) := rfl

/-- What comes of a report on a task that is being computed. -/
inductive Completes (b : Board) (r : Report) (t : Task) : Completion → Board → Prop
  | failed {error : String} (isError : r.errorText? = some error) :
      Completes b r t (.finished t.expressionId (.failed r.result error)) (b.markFailed r t error)
  | last (isValue : r.errorText? = none) (none_left : b.lacking t.expressionId - 1 = 0) :
      Completes b r t (.finished t.expressionId (.done r.result)) (b.markDone r t)
  | progressed (isValue : r.errorText? = none) (some_left : b.lacking t.expressionId - 1 ≠ 0) :
      Completes b r t (.progressed ((b.markDone r t).resolve r.id r.result).1)
        ((b.markDone r t).resolve r.id r.result).2

theorem complete_eq (b : Board) (r : Report) :
    b.complete r =
      match b.get? r.id with
      | none => .error (.taskNotFound r.id)
      | some t =>
        if t.status ≠ .computing then .error (.taskNotClaimed t.id t.status)
        else
          match r.errorText? with
          | some error =>
            .ok (.finished t.expressionId (.failed r.result error), b.markFailed r t error)
          | none =>
            if b.lacking t.expressionId - 1 = 0 then
              .ok (.finished t.expressionId (.done r.result), b.markDone r t)
            else
              .ok (.progressed ((b.markDone r t).resolve r.id r.result).1,
                ((b.markDone r t).resolve r.id r.result).2) := rfl

theorem completes_of_complete {b b' : Board} {r : Report} {c : Completion}
    (h : b.complete r = .ok (c, b')) :
    ∃ t, b.get? r.id = some t ∧ t.status = .computing ∧ Completes b r t c b' := by
  rw [complete_eq] at h
  split at h
  · cases h
  · next t ht =>
    split at h
    · cases h
    · next hstatus =>
      refine ⟨t, ht, not_not.1 hstatus, ?_⟩
      split at h
      · next error herror =>
        cases h
        exact .failed herror
      · next hvalue =>
        split at h
        · next hleft =>
          cases h
          exact .last hvalue hleft
        · next hleft =>
          cases h
          exact .progressed hvalue hleft

/-- Why a report is refused. -/
theorem refuses_of_complete {b : Board} {r : Report} {err : BoardError}
    (h : b.complete r = .error err) :
    (b.get? r.id = none ∧ err = .taskNotFound r.id) ∨
      ∃ t, b.get? r.id = some t ∧ t.status ≠ .computing ∧ err = .taskNotClaimed t.id t.status := by
  rw [complete_eq] at h
  split at h
  · next hnone =>
    cases h
    exact .inl ⟨hnone, rfl⟩
  · next t ht =>
    split at h
    · next hstatus =>
      cases h
      exact .inr ⟨t, ht, hstatus, rfl⟩
    · split at h
      · cases h
      · split at h <;> cases h

/-- The expression that a report ends owns the task of the report. -/
theorem Completes.owner_of_finished {b b' : Board} {r : Report} {t : Task} {e : Int} {o : Outcome}
    (h : Completes b r t (.finished e o) b') : t.expressionId = e := by
  cases h <;> rfl

/-! ## 3. Putting a result in its place -/

/-- The board once a result has taken the place of the operand that waited for it. -/
def supply (b : Board) (id : Int) (w : Waiter) (t : Task) : Board :=
  { b with
    tasks := b.tasks.insert w.task t
    waiters := b.waiters.erase id
    ready := if t.isRunnable then b.ready.insert t.id () else b.ready }

theorem tasks_supply (b : Board) (id : Int) (w : Waiter) (t : Task) :
    (b.supply id w t).tasks = b.tasks.insert w.task t := rfl

/-- The task that is given the result is runnable now, or it still waits. -/
theorem contains_ready_supply {b : Board} {w : Waiter} {t : Task} (hid : t.id = w.task)
    (hready : b.ready.contains w.task = false) (id j : Int) :
    (b.supply id w t).ready.contains j =
      if j = w.task then t.isRunnable else b.ready.contains j := by
  cases hrun : t.isRunnable with
  | true =>
    simp only [supply, hrun, if_true, IdMap.contains_insert, hid]
    by_cases hj : j = w.task <;> simp [hj]
  | false =>
    simp only [supply, hrun, Bool.false_eq_true, if_false]
    by_cases hj : j = w.task <;> simp [hj, hready]

theorem get?_waiters_supply (b : Board) (id : Int) (w : Waiter) (t : Task) (dep : Int) :
    (b.supply id w t).waiters.get? dep = if dep = id then none else b.waiters.get? dep :=
  IdMap.get?_erase _ _ _

theorem resolve_of_none {b : Board} {id : Int} (h : b.waiters.get? id = none) (value : Number) :
    b.resolve id value = (none, b) := by
  rw [resolve, h]

theorem resolve_of_some {b : Board} {id : Int} {w : Waiter} {t : Task}
    (hw : b.waiters.get? id = some w) (ht : b.get? w.task = some t) (value : Number) :
    b.resolve id value =
      (if (t.withSide w.side (.resolved value)).isRunnable then some t.id else none,
        b.supply id w (t.withSide w.side (.resolved value))) := by
  have ht' : Board.get? { b with waiters := b.waiters.erase id } w.task = some t := ht
  rw [resolve, hw]
  simp only [ht', supply]
  split <;> simp [*]

/-- Putting a result in its place concerns the tasks and the two maps of those that wait
and of those that need not, and nothing else. -/
theorem resolve_frame (b : Board) (id : Int) (value : Number) :
    ∃ tasks ready waiters, (b.resolve id value).2 = { b with tasks, ready, waiters } := by
  rw [resolve]
  split
  · exact ⟨_, _, _, rfl⟩
  · dsimp only
    split
    · exact ⟨_, _, _, rfl⟩
    · split <;> exact ⟨_, _, _, rfl⟩

theorem remaining_resolve (b : Board) (id : Int) (value : Number) :
    (b.resolve id value).2.remaining = b.remaining := by
  obtain ⟨tasks, ready, waiters, hframe⟩ := b.resolve_frame id value
  rw [hframe]

theorem nextId_resolve (b : Board) (id : Int) (value : Number) :
    (b.resolve id value).2.nextId = b.nextId := by
  obtain ⟨tasks, ready, waiters, hframe⟩ := b.resolve_frame id value
  rw [hframe]

/-- A report uses up no ids. -/
theorem Completes.nextId_eq {b b' : Board} {r : Report} {t : Task} {c : Completion}
    (h : Completes b r t c b') : b'.nextId = b.nextId := by
  cases h with
  | failed isError => rfl
  | last isValue none_left => rfl
  | progressed isValue some_left => exact nextId_resolve _ _ _

/-! ## 4. Admitting an expression -/

/-- Who waits for the results that a task refers to. -/
def waits (t : Task) : List (Int × Waiter) :=
  t.references.map fun r => (r.1, ⟨t.id, r.2⟩)

theorem foldl_waiters (t : Task) (rs : List (Int × Side)) (ws : IdMap Waiter) :
    rs.foldl (fun ws r => ws.insert r.1 ⟨t.id, r.2⟩) ws =
      ws.insertAll (rs.map fun r => (r.1, ⟨t.id, r.2⟩)) := by
  rw [IdMap.insertAll, List.foldl_map]

/-- Posting some tasks one by one enters each of them in the three maps. -/
theorem foldl_post (ts : List Task) (b : Board) :
    ts.foldl post b = { b with
      tasks := b.tasks.insertAll (ts.map fun t => (t.id, t))
      ready := b.ready.insertAll ((ts.filter Task.isRunnable).map fun t => (t.id, ()))
      waiters := b.waiters.insertAll (ts.flatMap waits) } := by
  induction ts generalizing b with
  | nil => rfl
  | cons t ts ih =>
    rw [List.foldl_cons, ih]
    simp only [post, foldl_waiters, waits, List.map_cons, IdMap.insertAll_cons,
      List.flatMap_cons, IdMap.insertAll_append, List.filter_cons]
    split <;> simp

theorem addPlan_eq (b : Board) (e : Int) (plan : Plan) (timings : Timings) :
    b.addPlan e plan timings =
      { tasks := b.tasks.insertAll ((b.tasksFor e plan timings).map fun t => (t.id, t))
        ready := b.ready.insertAll
          (((b.tasksFor e plan timings).filter Task.isRunnable).map fun t => (t.id, ()))
        waiters := b.waiters.insertAll ((b.tasksFor e plan timings).flatMap waits)
        remaining := if plan.size = 0 then b.remaining else b.remaining.insert e plan.size
        nextId := b.nextId + plan.size } := by
  rw [addPlan, foldl_post]

theorem isLive_addPlan (b : Board) (e : Int) (plan : Plan) (timings : Timings) (e' : Int) :
    (b.addPlan e plan timings).isLive e' = true ↔
      (plan.size ≠ 0 ∧ e' = e) ∨ b.isLive e' = true := by
  rw [addPlan_eq]
  by_cases hsize : plan.size = 0
  · simp [isLive, hsize]
  · simp [isLive, hsize, IdMap.contains_insert]

theorem mem_waits_iff (ts : List Task) (dep : Int) (w : Waiter) :
    (dep, w) ∈ ts.flatMap waits ↔ ∃ t ∈ ts, w.task = t.id ∧ t.operand w.side = .pending dep := by
  simp only [List.mem_flatMap, waits, List.mem_map, Prod.exists, Prod.mk.injEq]
  constructor
  · rintro ⟨t, ht, d, side, hr, rfl, rfl⟩
    exact ⟨t, ht, rfl, (t.mem_references_iff d side).1 hr⟩
  · rintro ⟨t, ht, htask, ho⟩
    refine ⟨t, ht, dep, w.side, (t.mem_references_iff dep w.side).2 ho, rfl, ?_⟩
    rw [← htask]

theorem map_fst_waits (ts : List Task) :
    (ts.flatMap waits).map (·.1) = Task.dependencies ts := by
  simp [Task.dependencies, List.map_flatMap, waits, Function.comp_def]

/-! ## 5. Removing an expression -/

theorem isLive_evict (b : Board) (e e' : Int) :
    (b.evict e).isLive e' = (e' != e && b.isLive e') :=
  IdMap.contains_erase _ _ _

theorem isLive_evict_self (b : Board) (e : Int) : (b.evict e).isLive e = false := by
  rw [isLive_evict, bne_self_eq_false, Bool.false_and]

theorem mem_idsOf_iff {b : Board} (hid : ∀ id t, b.get? id = some t → t.id = id) (e id : Int) :
    id ∈ b.idsOf e ↔ ∃ t, b.get? id = some t ∧ t.expressionId = e := by
  simp only [idsOf, tasksOf, List.mem_map, List.mem_filter, IdMap.mem_values_iff, beq_iff_eq]
  constructor
  · rintro ⟨t, ⟨⟨id', hget⟩, he⟩, rfl⟩
    have := hid id' t hget
    subst this
    exact ⟨t, hget, he⟩
  · rintro ⟨t, hget, he⟩
    exact ⟨t, ⟨⟨id, hget⟩, he⟩, hid id t hget⟩

theorem get?_evict {b : Board} (hid : ∀ id t, b.get? id = some t → t.id = id) (e id : Int)
    (t : Task) : (b.evict e).get? id = some t ↔ b.get? id = some t ∧ t.expressionId ≠ e := by
  show (b.tasks.eraseAll (b.idsOf e)).get? id = some t ↔ _
  rw [IdMap.get?_eraseAll]
  split
  · next h =>
    obtain ⟨u, hu, he⟩ := (mem_idsOf_iff hid e id).1 h
    simp only [hu, reduceCtorEq, Option.some.injEq, false_iff, not_and, not_not]
    rintro rfl
    exact he
  · next h =>
    constructor
    · intro ht
      exact ⟨ht, fun he => h ((mem_idsOf_iff hid e id).2 ⟨t, ht, he⟩)⟩
    · exact And.left

/-- The tasks of the other expressions stay, in their order. -/
theorem values_evict {b : Board} (hid : ∀ id t, b.get? id = some t → t.id = id) (e : Int) :
    (b.evict e).tasks.values = b.tasks.values.filter fun t => t.expressionId != e := by
  show ((b.tasks.entries.filter fun f => !(b.idsOf e).contains f.1).map (·.2)) =
    (b.tasks.entries.map (·.2)).filter _
  rw [List.filter_map]
  congr 1
  refine List.filter_congr fun f hf => ?_
  have hget : b.get? f.1 = some f.2 := (IdMap.mem_entries_iff _ _ _).1 hf
  have hmem : f.1 ∈ b.idsOf e ↔ f.2.expressionId = e := by
    rw [mem_idsOf_iff hid]
    constructor
    · rintro ⟨t, ht, he⟩
      rw [hget] at ht
      cases ht
      exact he
    · intro he
      exact ⟨f.2, hget, he⟩
  by_cases he : f.2.expressionId = e <;> simp [hmem, he]

end Reckoner.Board
