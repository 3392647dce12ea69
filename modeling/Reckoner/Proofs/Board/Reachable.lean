/-
Reckoner.Proofs.Board.Reachable — the boards that the operations lead to.

`Reachable` lets the operations come in any order, with any plans, reports and
expressions; its boards are coherent. `Served` is the order in which a
dispatcher uses them: an expression is admitted only while it is not live, and
is removed as soon as it has ended. Then the counters are exact too
(`Counted`), and the two places where taking a report guards against a missing
or an empty counter have no effect.

  1. Sequences of operations
  2. The tasks that have not ended
  3. The counters are exact
  4. Every sequence of operations
-/
import Reckoner.Proofs.Board.Coherent

namespace Reckoner.Board

/-! ## 1. Sequences of operations -/

/-- Boards that the operations reach from the empty one, in any order. -/
inductive Reachable : Board → Prop
  | empty : Reachable empty
  | addPlan {b : Board} {tokens : List String} {plan : Plan} (e : Int) (timings : Timings) :
      Reachable b → Plan.ofTokens tokens = .ok plan → Reachable (b.addPlan e plan timings)
  | claim {b b' : Board} {t : Task} : Reachable b → b.claim? = some (t, b') → Reachable b'
  | complete {b b' : Board} {r : Report} {c : Completion} :
      Reachable b → b.complete r = .ok (c, b') → Reachable b'
  | evict {b : Board} (e : Int) : Reachable b → Reachable (b.evict e)

/-- Boards that the operations reach when no live expression is admitted again
and every expression that ends is removed at once. -/
inductive Served : Board → Prop
  | empty : Served empty
  | addPlan {b : Board} {tokens : List String} {plan : Plan} (e : Int) (timings : Timings) :
      Served b → Plan.ofTokens tokens = .ok plan → b.isLive e = false →
      Served (b.addPlan e plan timings)
  | claim {b b' : Board} {t : Task} : Served b → b.claim? = some (t, b') → Served b'
  | progressed {b b' : Board} {r : Report} {unblocked : Option Int} :
      Served b → b.complete r = .ok (.progressed unblocked, b') → Served b'
  | finished {b b' : Board} {r : Report} {e : Int} {o : Outcome} :
      Served b → b.complete r = .ok (.finished e o, b') → Served (b'.evict e)
  | evict {b : Board} (e : Int) : Served b → Served (b.evict e)

theorem Served.reachable {b : Board} (h : Served b) : Reachable b := by
  induction h with
  | empty => exact .empty
  | addPlan e timings _ hplan _ ih => exact .addPlan e timings ih hplan
  | claim _ hc ih => exact .claim ih hc
  | progressed _ hc ih => exact .complete ih hc
  | finished _ hc ih => exact .evict _ (.complete ih hc)
  | evict e _ ih => exact .evict e ih

/-- The tasks of any plan that some tokens have are linked. -/
theorem linked_tasksFor {tokens : List String} {plan : Plan} (h : Plan.ofTokens tokens = .ok plan)
    (b : Board) (e : Int) (timings : Timings) :
    Task.Linked e b.nextId (b.tasksFor e plan timings) := by
  obtain ⟨t, -, -, rfl⟩ := Plan.ofTokens_eq_ok_iff.1 h
  exact Plan.linked_plan t e b.nextId timings

theorem Reachable.coherent {b : Board} (h : Reachable b) : b.Coherent := by
  induction h with
  | empty => exact coherent_empty
  | addPlan e timings _ hplan ih => exact ih.addPlan (linked_tasksFor hplan _ e timings)
  | claim _ hc ih => exact ih.claim? hc
  | complete _ hc ih => exact ih.complete hc
  | evict e _ ih => exact ih.evict e

/-! ## 2. The tasks that have not ended -/

/-- A task of an expression that has not ended. -/
def isOpen (e : Int) (t : Task) : Bool := t.expressionId == e && !t.status.isFinal

/-- The number of tasks of an expression that have not ended. -/
def openCount (b : Board) (e : Int) : Nat := b.tasks.values.countP (isOpen e)

theorem openCount_insert {b b' : Board} {id : Int} {t t' : Task} (ht : b.get? id = some t)
    (htasks : b'.tasks = b.tasks.insert id t') (e : Int) :
    b'.openCount e + (isOpen e t).toNat = b.openCount e + (isOpen e t').toNat := by
  rw [openCount, htasks]
  exact IdMap.countP_values_insert ht (isOpen e) t'

/-- A change of a task that neither ends it nor gives it away is not counted. -/
theorem openCount_eq_of_isOpen {b b' : Board} {id : Int} {t t' : Task} (ht : b.get? id = some t)
    (htasks : b'.tasks = b.tasks.insert id t') {e : Int} (hopen : isOpen e t' = isOpen e t) :
    b'.openCount e = b.openCount e := by
  have := openCount_insert ht htasks e
  rw [hopen] at this
  omega

/-- A change of a task is not counted for the other expressions. -/
theorem openCount_eq_of_owner {b b' : Board} {id : Int} {t t' : Task} (ht : b.get? id = some t)
    (htasks : b'.tasks = b.tasks.insert id t') (howner : t'.expressionId = t.expressionId)
    {e : Int} (hne : e ≠ t.expressionId) : b'.openCount e = b.openCount e := by
  refine openCount_eq_of_isOpen ht htasks ?_
  have hfalse : (t.expressionId == e) = false := beq_false_of_ne hne.symm
  simp [isOpen, howner, hfalse]

theorem openCount_markDone_of_ne {b : Board} {r : Report} {t : Task} (ht : b.get? r.id = some t)
    {e : Int} (hne : e ≠ t.expressionId) : (b.markDone r t).openCount e = b.openCount e :=
  openCount_eq_of_owner ht (b.tasks_markDone r t) rfl hne

theorem openCount_eq_zero {b : Board} {e : Int}
    (h : ∀ id t, b.get? id = some t → t.expressionId ≠ e) : b.openCount e = 0 := by
  refine List.countP_eq_zero.2 fun t ht => ?_
  obtain ⟨id, hid⟩ := (IdMap.mem_values_iff _ _).1 ht
  have hne := h id t hid
  simp [isOpen, hne]

theorem openCount_pos {b : Board} {id : Int} {t : Task} (ht : b.get? id = some t)
    (hs : t.status.isFinal = false) : 0 < b.openCount t.expressionId :=
  List.countP_pos_iff.2 ⟨t, (IdMap.mem_values_iff _ _).2 ⟨id, ht⟩, by simp [isOpen, hs]⟩

theorem openCount_addPlan {b : Board} (h : b.Coherent) {e : Int} {plan : Plan} {timings : Timings}
    (hl : Task.Linked e b.nextId (b.tasksFor e plan timings)) (e' : Int) :
    (b.addPlan e plan timings).openCount e' =
      b.openCount e' + if e' = e then plan.size else 0 := by
  rw [openCount, h.values_addPlan hl, List.countP_append, ← openCount]
  congr 1
  split
  · next heq =>
    rw [← plan.length_tasks e b.nextId timings]
    refine List.countP_eq_length.2 fun t ht => ?_
    simp [isOpen, hl.owner t ht, hl.fresh t ht, heq, Status.isFinal]
  · next hne =>
    refine List.countP_eq_zero.2 fun t ht => ?_
    simp [isOpen, hl.owner t ht, Ne.symm hne]

theorem openCount_evict {b : Board} (h : b.Coherent) {e e' : Int} (hne : e' ≠ e) :
    (b.evict e).openCount e' = b.openCount e' := by
  rw [openCount, values_evict h.id_eq, List.countP_filter]
  refine List.countP_congr fun t _ => ?_
  simp only [isOpen, Bool.and_eq_true, beq_iff_eq, bne_iff_ne]
  constructor
  · exact And.left
  · intro hopen
    exact ⟨hopen, by rw [hopen.1]; exact hne⟩

/-! ## 3. The counters are exact -/

/-- The counter of each live expression is the number of its tasks that have not
ended, of which there is one at least. -/
structure Counted (b : Board) : Prop where
  count_eq : ∀ e n, b.remaining.get? e = some n → n = b.openCount e
  count_pos : ∀ e n, b.remaining.get? e = some n → 0 < n

namespace Counted

variable {b b' : Board}

/-- The counter of a task's expression is there, and can be taken one off. -/
theorem exists_succ (hc : b.Counted) (h : b.Coherent) {id : Int} {t : Task}
    (ht : b.get? id = some t) :
    ∃ n, b.remaining.get? t.expressionId = some (n + 1) := by
  obtain ⟨n, hn⟩ := (IdMap.contains_eq_true_iff _ _).1 (h.isLive_of_get? ht)
  have hpos := hc.count_pos _ _ hn
  exact ⟨n - 1, by rw [hn]; congr 1; omega⟩

/-- The same counters stay exact while the same tasks are open. -/
theorem congr (hc : b.Counted) (hremaining : b'.remaining = b.remaining)
    (hopen : ∀ e, b'.openCount e = b.openCount e) : b'.Counted where
  count_eq e n hn := by
    rw [hremaining] at hn
    rw [hopen]
    exact hc.count_eq e n hn
  count_pos e n hn := by
    rw [hremaining] at hn
    exact hc.count_pos e n hn

theorem claim? (hc : b.Counted) {t : Task} (h : b.claim? = some (t, b')) (hb : b.Coherent) :
    b'.Counted := by
  obtain ⟨id, u, hleast, hu, rfl, rfl⟩ := claim?_eq_some h
  have hpending := (u.isRunnable_iff.1 (hb.runnable_of_least hleast hu)).1
  refine hc.congr rfl fun e => openCount_eq_of_isOpen hu (b.tasks_handOut id u) ?_
  simp [isOpen, hpending, Status.isFinal]

theorem resolve (hc : b.Counted) (hb : b.Coherent) (id : Int) (value : Number) :
    (b.resolve id value).2.Counted := by
  cases hw : b.waiters.get? id with
  | none => rwa [resolve_of_none hw]
  | some w =>
    obtain ⟨t, ht, -, -⟩ := hb.exists_waiting hw
    rw [resolve_of_some hw ht]
    exact hc.congr rfl fun e =>
      openCount_eq_of_isOpen ht (b.tasks_supply id w _) (by simp [isOpen])

theorem lacking_eq (hc : b.Counted) (hb : b.Coherent) {id : Int} {t : Task}
    (ht : b.get? id = some t) : b.lacking t.expressionId = b.openCount t.expressionId := by
  obtain ⟨m, hm⟩ := hc.exists_succ hb ht
  rw [lacking, hm, ← hc.count_eq _ _ hm]
  rfl

/-- A task that is done is one open task less. -/
theorem openCount_markDone (hc : b.Counted) (hb : b.Coherent) {r : Report} {t : Task}
    (ht : b.get? r.id = some t) (hs : t.status = .computing) :
    (b.markDone r t).openCount t.expressionId = b.lacking t.expressionId - 1 := by
  have hcount := openCount_insert ht (b.tasks_markDone r t) t.expressionId
  simp only [isOpen, doneTask, hs, Status.isFinal, Bool.not_false, Bool.not_true, Bool.and_true,
    Bool.and_false, Bool.toNat_false, Nat.add_zero, beq_self_eq_true, Bool.toNat_true] at hcount
  rw [hc.lacking_eq hb ht]
  omega

/-- A task that is done is counted off. -/
theorem markDone (hc : b.Counted) (hb : b.Coherent) {r : Report} {t : Task}
    (ht : b.get? r.id = some t) (hs : t.status = .computing)
    (hleft : b.lacking t.expressionId - 1 ≠ 0) : (b.markDone r t).Counted := by
  have hget : ∀ e, (b.markDone r t).remaining.get? e =
      if e = t.expressionId then some (b.lacking t.expressionId - 1) else b.remaining.get? e :=
    fun e => IdMap.get?_insert _ _ _ _
  constructor
  · intro e n hn
    rw [hget] at hn
    split at hn
    · next heq =>
      cases hn
      rw [heq, hc.openCount_markDone hb ht hs]
    · next hne =>
      rw [openCount_markDone_of_ne ht hne]
      exact hc.count_eq e n hn
  · intro e n hn
    rw [hget] at hn
    split at hn
    · cases hn
      exact Nat.pos_of_ne_zero hleft
    · exact hc.count_pos e n hn

/-- What an expression counts is gone with it, and no other counter changes. -/
theorem evict_of_others (hc : b.Counted) (hb' : b'.Coherent) {e : Int}
    (hremaining : ∀ e', e' ≠ e → b'.remaining.get? e' = b.remaining.get? e')
    (hopen : ∀ e', e' ≠ e → b'.openCount e' = b.openCount e') : (b'.evict e).Counted := by
  have hget : ∀ e', (b'.evict e).remaining.get? e' =
      if e' = e then none else b'.remaining.get? e' := fun e' => IdMap.get?_erase _ _ _
  constructor
  · intro e' n hn
    rw [hget] at hn
    split at hn
    · cases hn
    · next hne =>
      rw [openCount_evict hb' hne, hopen e' hne]
      exact hc.count_eq e' n (hremaining e' hne ▸ hn)
  · intro e' n hn
    rw [hget] at hn
    split at hn
    · cases hn
    · next hne => exact hc.count_pos e' n (hremaining e' hne ▸ hn)

theorem evict (hc : b.Counted) (hb : b.Coherent) (e : Int) : (b.evict e).Counted :=
  hc.evict_of_others hb (fun _ _ => rfl) (fun _ _ => rfl)

/-- A report that does not end an expression. -/
theorem progressed (hc : b.Counted) (hb : b.Coherent) {r : Report} {unblocked : Option Int}
    (h : b.complete r = .ok (.progressed unblocked, b')) : b'.Counted := by
  obtain ⟨t, ht, hs, hcompletes⟩ := completes_of_complete h
  cases hcompletes with
  | progressed isValue some_left =>
    exact (hc.markDone hb ht hs some_left).resolve (hb.markDone ht hs) _ _

/-- A report that ends an expression, which is removed at once. -/
theorem finished (hc : b.Counted) (hb : b.Coherent) {r : Report} {e : Int} {o : Outcome}
    (h : b.complete r = .ok (.finished e o, b')) : (b'.evict e).Counted := by
  have hb' := hb.complete h
  obtain ⟨t, ht, hs, hcompletes⟩ := completes_of_complete h
  cases hcompletes with
  | failed isError =>
    exact hc.evict_of_others hb' (fun _ _ => rfl) fun e' hne =>
      openCount_eq_of_owner ht (b.tasks_markFailed r t _) rfl hne
  | last isValue none_left =>
    refine hc.evict_of_others hb' (fun e' hne => ?_) fun e' hne => ?_
    · rw [Board.markDone, IdMap.get?_insert, if_neg hne]
    · exact openCount_markDone_of_ne ht hne

theorem addPlan (hc : b.Counted) (hb : b.Coherent) {e : Int} {plan : Plan} {timings : Timings}
    (hl : Task.Linked e b.nextId (b.tasksFor e plan timings)) (hlive : b.isLive e = false) :
    (b.addPlan e plan timings).Counted := by
  have hzero : b.openCount e = 0 := by
    refine openCount_eq_zero fun id t ht he => ?_
    have := hb.isLive_of_get? ht
    rw [he, hlive] at this
    cases this
  have hget : ∀ e', (b.addPlan e plan timings).remaining.get? e' =
      if e' = e ∧ plan.size ≠ 0 then some plan.size else b.remaining.get? e' := by
    intro e'
    rw [addPlan_eq]
    by_cases hsize : plan.size = 0
    · simp [hsize]
    · simp [hsize, IdMap.get?_insert]
  constructor
  · intro e' n hn
    rw [openCount_addPlan hb hl]
    rw [hget] at hn
    split at hn
    · next h =>
      cases hn
      rw [if_pos h.1, h.1, hzero, Nat.zero_add]
    · next h =>
      have := hc.count_eq e' n hn
      split
      · next he =>
        have : plan.size = 0 := not_not.1 fun hsize => h ⟨he, hsize⟩
        omega
      · exact this
  · intro e' n hn
    rw [hget] at hn
    split at hn
    · next h =>
      cases hn
      exact Nat.pos_of_ne_zero h.2
    · exact hc.count_pos e' n hn

end Counted

theorem Served.counted {b : Board} (h : Served b) : b.Counted := by
  induction h with
  | empty => exact ⟨fun _ _ h => (nomatch h), fun _ _ h => (nomatch h)⟩
  | addPlan e timings hb hplan hlive ih =>
    exact ih.addPlan hb.reachable.coherent (linked_tasksFor hplan _ e timings) hlive
  | claim hb hc ih => exact ih.claim? hc hb.reachable.coherent
  | progressed hb hc ih => exact ih.progressed hb.reachable.coherent hc
  | finished hb hc ih => exact ih.finished hb.reachable.coherent hc
  | evict e hb ih => exact ih.evict hb.reachable.coherent e

/-! ## 4. Every sequence of operations -/

/-- Every sequence of operations keeps the indexes in step with the tasks. In the
order of a dispatcher the counters are exact too: every report finds a counter
of one at least, so that none is made up and none is held at zero. -/
theorem indexes_exact {b : Board} (h : Reachable b) :
    b.Coherent ∧
      (Served b → b.Counted ∧
        ∀ id t, b.get? id = some t → ∃ n, b.remaining.get? t.expressionId = some (n + 1)) :=
  ⟨h.coherent, fun hs => ⟨hs.counted, fun _ _ ht => hs.counted.exists_succ h.coherent ht⟩⟩

theorem indexes_exact_difference :
    let plan := (Tree.node .subtract (.node .add (.leaf "1") (.leaf "2")) (.leaf "3")).plan
    let b := empty.addPlan 7 plan {}
    b.Coherent ∧ b.Counted ∧ b.remaining.get? 7 = some 2 := by
  intro plan b
  have hplan : Plan.ofTokens ["1", "2", "+", "3", "-"] = .ok plan := by decide +kernel
  have hr : Reachable b := .addPlan 7 {} .empty hplan
  have hs : Served b := .addPlan 7 {} .empty hplan rfl
  obtain ⟨hcoherent, hserved⟩ := indexes_exact hr
  exact ⟨hcoherent, (hserved hs).1, by decide +kernel⟩

end Reckoner.Board
