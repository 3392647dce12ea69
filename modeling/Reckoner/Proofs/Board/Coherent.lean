/-
Reckoner.Proofs.Board.Coherent — the indexes of a board agree with its tasks.

`Coherent` says of the three indexes exactly which entries they have, and of the
tasks that they refer to earlier tasks of their own expression. Every operation
keeps it, also where one expression is admitted twice, where an expression ends
and its tasks stay, and where tasks are removed in the middle of the work.

Two kinds of change cover all operations but the admission. A task can move on
in its life cycle with its operands as they are (`Coherent.move`), or a result
takes the place of the one operand that waited for it (`Coherent.resolve`).

  1. The invariant
  2. One task changes
  3. An expression comes and goes
-/
import Reckoner.Proofs.Board.Effect

namespace Reckoner.Board

/-! ## 1. The invariant -/

/-- The indexes of a board agree with its tasks. -/
structure Coherent (b : Board) : Prop where
  id_eq : ∀ id t, b.get? id = some t → t.id = id
  /-- The ready tasks are exactly the runnable ones. -/
  ready : ∀ id, b.ready.contains id = true ↔ ∃ t, b.get? id = some t ∧ t.isRunnable = true
  /-- A task waits on one side exactly if that side refers to another task. -/
  waiters : ∀ dep w, b.waiters.get? dep = some w ↔
    ∃ t, b.get? w.task = some t ∧ t.operand w.side = .pending dep
  /-- References go to earlier tasks of the same expression. -/
  backward : ∀ id t side dep, b.get? id = some t → t.operand side = .pending dep →
    dep < id ∧ ∃ t', b.get? dep = some t' ∧ t'.expressionId = t.expressionId
  /-- The live expressions are exactly those that own a task. -/
  live : ∀ e, b.isLive e = true ↔ ∃ id t, b.get? id = some t ∧ t.expressionId = e
  below : ∀ id t, b.get? id = some t → id < b.nextId
  /-- A task that has been handed out refers to no other. -/
  begun : ∀ id t, b.get? id = some t → t.status ≠ .pending →
    ∀ side, (t.operand side).isLiteral = true

theorem coherent_empty : Coherent empty where
  id_eq _ _ h := nomatch h
  ready id := by
    constructor
    · intro h
      cases h
    · rintro ⟨t, h, -⟩
      cases h
  waiters dep w := by
    constructor
    · intro h
      cases h
    · rintro ⟨t, h, -⟩
      cases h
  backward _ _ _ _ h := nomatch h
  live e := by
    constructor
    · intro h
      cases h
    · rintro ⟨id, t, h, -⟩
      cases h
  below _ _ h := nomatch h
  begun _ _ h := nomatch h

namespace Coherent

variable {b b' : Board}

theorem status_pending (h : b.Coherent) {id : Int} {t : Task} (ht : b.get? id = some t)
    {side : Side} {dep : Int} (ho : t.operand side = .pending dep) : t.status = .pending := by
  by_contra hs
  have := h.begun id t ht hs side
  rw [ho] at this
  cases this

theorem ready_eq_false (h : b.Coherent) {id : Int} {t : Task} (ht : b.get? id = some t)
    (hr : t.isRunnable = false) : b.ready.contains id = false := by
  rw [← Bool.not_eq_true, h.ready]
  rintro ⟨u, hu, hrun⟩
  rw [ht] at hu
  cases hu
  rw [hr] at hrun
  cases hrun

theorem isLive_of_get? (h : b.Coherent) {id : Int} {t : Task} (ht : b.get? id = some t) :
    b.isLive t.expressionId = true :=
  (h.live _).2 ⟨id, t, ht, rfl⟩

/-- The task that waits for a result. -/
theorem exists_waiting (h : b.Coherent) {dep : Int} {w : Waiter}
    (hw : b.waiters.get? dep = some w) :
    ∃ t, b.get? w.task = some t ∧ t.operand w.side = .pending dep ∧ t.status = .pending := by
  obtain ⟨t, ht, ho⟩ := (h.waiters dep w).1 hw
  exact ⟨t, ht, ho, h.status_pending ht ho⟩

/-- The task to be handed out next waits for a worker, and for nothing else. -/
theorem runnable_of_least (h : b.Coherent) {id : Int} {t : Task}
    (hleast : b.ready.least? = some (id, ())) (ht : b.get? id = some t) :
    t.isRunnable = true := by
  have hcontains : b.ready.contains id = true :=
    (IdMap.contains_eq_true_iff _ _).2 ⟨(), ((IdMap.least?_eq_some_iff _ _ _).1 hleast).1⟩
  obtain ⟨u, hu, hrun⟩ := (h.ready id).1 hcontains
  rw [ht] at hu
  cases hu
  exact hrun

/-! ## 2. One task changes -/

/-- One task changes in its place: it keeps its id and its owner and waits for
no more results than before, and the indexes follow. -/
theorem replace (h : b.Coherent) {id : Int} {t t' : Task} (ht : b.get? id = some t)
    (htasks : b'.tasks = b.tasks.insert id t') (hid : t'.id = t.id)
    (howner : t'.expressionId = t.expressionId)
    (hoperand : ∀ side dep, t'.operand side = .pending dep → t.operand side = .pending dep)
    (hbegun : t'.status ≠ .pending → ∀ side, (t'.operand side).isLiteral = true)
    (hready : ∀ j, b'.ready.contains j = if j = id then t'.isRunnable else b.ready.contains j)
    (hwaiters : ∀ dep w, b'.waiters.get? dep = some w ↔
      b.waiters.get? dep = some w ∧ (w.task = id → t'.operand w.side = .pending dep))
    (hlive : ∀ e, b'.isLive e = b.isLive e) (hnext : b'.nextId = b.nextId) : b'.Coherent := by
  have hget : ∀ j, b'.get? j = if j = id then some t' else b.get? j := by
    intro j
    rw [get?, htasks, IdMap.get?_insert]
    rfl
  -- The tasks before and after correspond, with their owners and with what they wait for.
  have hback : ∀ j u', b'.get? j = some u' → ∃ u, b.get? j = some u ∧ u'.id = u.id ∧
      u'.expressionId = u.expressionId ∧
      ∀ side dep, u'.operand side = .pending dep → u.operand side = .pending dep := by
    intro j u' hu'
    rw [hget] at hu'
    split at hu'
    · next hj =>
      cases hu'
      exact ⟨t, hj ▸ ht, hid, howner, hoperand⟩
    · exact ⟨u', hu', rfl, rfl, fun _ _ h => h⟩
  have hforth : ∀ j u, b.get? j = some u → ∃ u', b'.get? j = some u' ∧
      u'.expressionId = u.expressionId := by
    intro j u hu
    rw [hget]
    split
    · next hj =>
      rw [hj, ht] at hu
      cases hu
      exact ⟨t', rfl, howner⟩
    · exact ⟨u, hu, rfl⟩
  constructor
  case id_eq =>
    intro j u' hu'
    obtain ⟨u, hu, heq, -⟩ := hback j u' hu'
    exact heq.trans (h.id_eq j u hu)
  case ready =>
    intro j
    rw [hready, hget]
    split
    · simp
    · exact h.ready j
  case waiters =>
    intro dep w
    rw [hwaiters, hget]
    constructor
    · rintro ⟨hw, hkept⟩
      split
      · next htask => exact ⟨t', rfl, hkept htask⟩
      · exact (h.waiters dep w).1 hw
    · rintro ⟨u', hu', ho⟩
      obtain ⟨u, hu, -, -, heq⟩ := hback w.task u' (by rw [hget]; exact hu')
      refine ⟨(h.waiters dep w).2 ⟨u, hu, heq w.side dep ho⟩, fun htask => ?_⟩
      rw [if_pos htask] at hu'
      cases hu'
      exact ho
  case backward =>
    intro j u' side dep hu' ho
    obtain ⟨u, hu, -, hown, heq⟩ := hback j u' hu'
    obtain ⟨hlt, v, hv, hvown⟩ := h.backward j u side dep hu (heq side dep ho)
    obtain ⟨v', hv', hvown'⟩ := hforth dep v hv
    exact ⟨hlt, v', hv', by rw [hvown', hvown, hown]⟩
  case live =>
    intro e
    rw [hlive, h.live]
    constructor
    · rintro ⟨j, u, hu, rfl⟩
      obtain ⟨u', hu', hown⟩ := hforth j u hu
      exact ⟨j, u', hu', hown⟩
    · rintro ⟨j, u', hu', rfl⟩
      obtain ⟨u, hu, -, hown, -⟩ := hback j u' hu'
      exact ⟨j, u, hu, hown.symm⟩
  case below =>
    intro j u' hu'
    obtain ⟨u, hu, -⟩ := hback j u' hu'
    rw [hnext]
    exact h.below j u hu
  case begun =>
    intro j u' hu'
    rw [hget] at hu'
    split at hu'
    · cases hu'
      exact hbegun
    · exact h.begun j u' hu'

/-- One task moves on in its life cycle, with its operands as they are. -/
theorem move (h : b.Coherent) {id : Int} {t t' : Task} (ht : b.get? id = some t)
    (htasks : b'.tasks = b.tasks.insert id t') (hid : t'.id = t.id)
    (howner : t'.expressionId = t.expressionId)
    (hleft : t'.left = t.left) (hright : t'.right = t.right)
    (hliteral : ∀ side, (t.operand side).isLiteral = true)
    (hready : ∀ j, b'.ready.contains j = if j = id then t'.isRunnable else b.ready.contains j)
    (hwaiters : b'.waiters = b.waiters) (hlive : ∀ e, b'.isLive e = b.isLive e)
    (hnext : b'.nextId = b.nextId) : b'.Coherent := by
  have hoperand := Task.operand_congr hleft hright
  refine h.replace ht htasks hid howner (fun side dep ho => hoperand side ▸ ho)
    (fun _ side => hoperand side ▸ hliteral side) hready ?_ hlive hnext
  intro dep w
  rw [hwaiters]
  refine ⟨fun hw => ⟨hw, fun htask => ?_⟩, And.left⟩
  obtain ⟨u, hu, ho⟩ := (h.waiters dep w).1 hw
  rw [htask, ht] at hu
  cases hu
  rw [hoperand, ho]

theorem claim? (h : b.Coherent) {t : Task} (hc : b.claim? = some (t, b')) : b'.Coherent := by
  obtain ⟨id, u, hleast, hu, rfl, rfl⟩ := claim?_eq_some hc
  have hrun := h.runnable_of_least hleast hu
  refine h.move hu (b.tasks_handOut id u) rfl rfl rfl rfl (u.isRunnable_iff.1 hrun).2 ?_ rfl
    (fun _ => rfl) rfl
  intro j
  rw [handOut, IdMap.contains_erase]
  by_cases hj : j = id
  · simp [hj, Task.isRunnable]
  · simp [hj]

/-- A task that is being computed ends. -/
theorem finishTask (h : b.Coherent) {id : Int} {t t' : Task} (ht : b.get? id = some t)
    (hs : t.status = .computing) (htasks : b'.tasks = b.tasks.insert id t')
    (hid : t'.id = t.id) (howner : t'.expressionId = t.expressionId)
    (hleft : t'.left = t.left) (hright : t'.right = t.right) (hs' : t'.status ≠ .pending)
    (hready : b'.ready = b.ready)
    (hwaiters : b'.waiters = b.waiters) (hlive : ∀ e, b'.isLive e = b.isLive e)
    (hnext : b'.nextId = b.nextId) : b'.Coherent := by
  have hbegun : t.status ≠ .pending := by simp [hs]
  refine h.move ht htasks hid howner hleft hright (h.begun id t ht hbegun) ?_ hwaiters hlive hnext
  intro j
  rw [hready]
  split
  · next hj =>
    rw [hj, Task.not_isRunnable_of_status hs',
      h.ready_eq_false ht (Task.not_isRunnable_of_status hbegun)]
  · rfl

theorem markFailed (h : b.Coherent) {r : Report} {t : Task} (ht : b.get? r.id = some t)
    (hs : t.status = .computing) (error : String) : (b.markFailed r t error).Coherent :=
  h.finishTask ht hs (b.tasks_markFailed r t error) rfl rfl rfl rfl (by simp [failedTask]) rfl rfl
    (fun _ => rfl) rfl

theorem markDone (h : b.Coherent) {r : Report} {t : Task} (ht : b.get? r.id = some t)
    (hs : t.status = .computing) : (b.markDone r t).Coherent := by
  refine h.finishTask ht hs (b.tasks_markDone r t) rfl rfl rfl rfl (by simp [doneTask]) rfl rfl
    ?_ rfl
  intro e
  rw [isLive, Board.markDone, IdMap.contains_insert]
  by_cases he : e = t.expressionId
  · have := h.isLive_of_get? ht
    rw [isLive] at this
    simp [he, this, isLive]
  · simp [he, isLive]

/-- A result takes the place of the one operand that waited for it. -/
theorem resolve (h : b.Coherent) (id : Int) (value : Number) :
    (b.resolve id value).2.Coherent := by
  cases hw : b.waiters.get? id with
  | none => rwa [resolve_of_none hw]
  | some w =>
    obtain ⟨t, ht, ho, hs⟩ := h.exists_waiting hw
    rw [resolve_of_some hw ht]
    set t' := t.withSide w.side (.resolved value) with ht'
    have hliteral : ∀ dep, t'.operand w.side ≠ .pending dep := by
      intro dep hdep
      rw [ht', Task.operand_withSide, if_pos rfl] at hdep
      cases hdep
    have hother : ∀ side, side ≠ w.side → t'.operand side = t.operand side := fun side hne => by
      rw [ht', Task.operand_withSide, if_neg hne]
    refine h.replace ht (b.tasks_supply id w t') (by simp [ht']) (by simp [ht']) ?_ ?_ ?_ ?_
      (fun _ => rfl) rfl
    · intro side dep hdep
      by_cases hside : side = w.side
      · exact absurd (hside ▸ hdep) (hliteral dep)
      · rwa [hother side hside] at hdep
    · intro hne
      exact absurd (by simp [ht', hs]) hne
    · have hid : t'.id = w.task := by rw [ht', Task.id_withSide, h.id_eq w.task t ht]
      have hnot := h.ready_eq_false ht (Task.not_isRunnable_of_pending ho)
      exact contains_ready_supply hid hnot id
    · intro dep v
      rw [get?_waiters_supply]
      by_cases hdep : dep = id
      · rw [if_pos hdep, hdep, hw]
        refine ⟨fun hv => (nomatch hv), ?_⟩
        rintro ⟨hv, hkept⟩
        cases hv
        exact absurd (hkept rfl) (hliteral id)
      · rw [if_neg hdep]
        refine ⟨fun hv => ⟨hv, fun htask => ?_⟩, And.left⟩
        obtain ⟨u, hu, hou⟩ := (h.waiters dep v).1 hv
        rw [htask, ht] at hu
        cases hu
        rw [hother, hou]
        rintro hside
        rw [hside, ho] at hou
        exact hdep (Operand.pending.inj hou).symm

theorem complete (h : b.Coherent) {r : Report} {c : Completion}
    (hc : b.complete r = .ok (c, b')) : b'.Coherent := by
  obtain ⟨t, ht, hs, hcompletes⟩ := completes_of_complete hc
  cases hcompletes with
  | failed isError => exact h.markFailed ht hs _
  | last isValue none_left => exact h.markDone ht hs
  | progressed isValue some_left => exact (h.markDone ht hs).resolve _ _

/-! ## 3. An expression comes and goes -/

/-- The tasks of a plan come beside those that the board has. -/
theorem get?_addPlan (h : b.Coherent) {e : Int} {plan : Plan} {timings : Timings}
    (hl : Task.Linked e b.nextId (b.tasksFor e plan timings)) (id : Int) (t : Task) :
    (b.addPlan e plan timings).get? id = some t ↔
      t ∈ b.tasksFor e plan timings ∧ t.id = id ∨ b.get? id = some t := by
  rw [addPlan_eq]
  have hkeys : ((b.tasksFor e plan timings).map fun t => (t.id, t)).map (·.1) =
      (b.tasksFor e plan timings).map (·.id) := by simp
  show (b.tasks.insertAll _).get? id = some t ↔ _
  rw [IdMap.get?_insertAll (by rw [hkeys]; exact hl.pairwise_id.imp Int.ne_of_lt)]
  · simp only [List.mem_map, Prod.mk.injEq]
    constructor
    · rintro (⟨u, hu, rfl, rfl⟩ | h)
      · exact .inl ⟨hu, rfl⟩
      · exact .inr h
    · rintro (⟨hu, rfl⟩ | h)
      · exact .inl ⟨t, hu, rfl, rfl⟩
      · exact .inr h
  · rintro ⟨j, u⟩ hu
    obtain ⟨u', hu', heq⟩ := List.mem_map.1 hu
    cases heq
    rw [Option.eq_none_iff_forall_ne_some]
    intro v hv
    have hlow := (hl.mem_id hu').1
    have := h.below _ v hv
    omega

/-- They come behind those that the board has. -/
theorem values_addPlan (h : b.Coherent) {e : Int} {plan : Plan} {timings : Timings}
    (hl : Task.Linked e b.nextId (b.tasksFor e plan timings)) :
    (b.addPlan e plan timings).tasks.values =
      b.tasks.values ++ b.tasksFor e plan timings := by
  rw [addPlan_eq]
  show (b.tasks.insertAll _).entries.map (·.2) = _
  rw [IdMap.entries_insertAll]
  · simp [IdMap.values, Function.comp_def]
  · have hid := List.pairwise_map.1 hl.pairwise_id
    exact List.pairwise_map.2 hid
  · intro f hf g hg
    obtain ⟨t, ht, rfl⟩ := List.mem_map.1 hf
    have hlow := (hl.mem_id ht).1
    have := h.below g.1 g.2 ((IdMap.mem_entries_iff _ _ _).1 hg)
    simp only
    omega

theorem contains_ready_addPlan (h : b.Coherent) {e : Int} {plan : Plan} {timings : Timings}
    (hl : Task.Linked e b.nextId (b.tasksFor e plan timings)) (id : Int) :
    (b.addPlan e plan timings).ready.contains id = true ↔
      (∃ t ∈ b.tasksFor e plan timings, t.id = id ∧ t.isRunnable = true) ∨
        b.ready.contains id = true := by
  rw [addPlan_eq]
  rw [IdMap.contains_eq_true_iff, IdMap.contains_eq_true_iff]
  have hkeys : (((b.tasksFor e plan timings).filter Task.isRunnable).map fun t =>
      (t.id, ())).map (·.1) = ((b.tasksFor e plan timings).filter Task.isRunnable).map (·.id) := by
    simp
  have hnodup : (((b.tasksFor e plan timings).filter Task.isRunnable).map (·.id)).Nodup :=
    (hl.pairwise_id.imp Int.ne_of_lt).sublist (List.filter_sublist.map _)
  have hfresh : ∀ f ∈ ((b.tasksFor e plan timings).filter Task.isRunnable).map
      (fun t => (t.id, ())), b.ready.get? f.1 = none := by
    intro f hf
    obtain ⟨t, ht, rfl⟩ := List.mem_map.1 hf
    have hlow := (hl.mem_id (List.mem_filter.1 ht).1).1
    rw [Option.eq_none_iff_forall_ne_some]
    intro u hu
    obtain ⟨v, hv, -⟩ := (h.ready t.id).1 ((IdMap.contains_eq_true_iff _ _).2 ⟨u, hu⟩)
    have := h.below _ v hv
    omega
  simp only [IdMap.get?_insertAll (by rw [hkeys]; exact hnodup) hfresh]
  constructor
  · rintro ⟨u, hu | hu⟩
    · obtain ⟨t, ht, heq⟩ := List.mem_map.1 hu
      cases heq
      exact .inl ⟨t, (List.mem_filter.1 ht).1, rfl, (List.mem_filter.1 ht).2⟩
    · exact .inr ⟨u, hu⟩
  · rintro (⟨t, ht, rfl, hrun⟩ | ⟨u, hu⟩)
    · exact ⟨(), .inl (List.mem_map.2 ⟨t, List.mem_filter.2 ⟨ht, hrun⟩, rfl⟩)⟩
    · exact ⟨u, .inr hu⟩

theorem get?_waiters_addPlan (h : b.Coherent) {e : Int} {plan : Plan} {timings : Timings}
    (hl : Task.Linked e b.nextId (b.tasksFor e plan timings)) (dep : Int) (w : Waiter) :
    (b.addPlan e plan timings).waiters.get? dep = some w ↔
      (∃ t ∈ b.tasksFor e plan timings, w.task = t.id ∧ t.operand w.side = .pending dep) ∨
        b.waiters.get? dep = some w := by
  rw [addPlan_eq]
  show (b.waiters.insertAll _).get? dep = some w ↔ _
  rw [IdMap.get?_insertAll (by rw [map_fst_waits]; exact hl.unique), mem_waits_iff]
  rintro ⟨d, v⟩ hv
  obtain ⟨t, ht, -, ho⟩ := (mem_waits_iff _ d v).1 hv
  have hlow := (hl.backward t ht v.side d ho).1
  rw [Option.eq_none_iff_forall_ne_some]
  intro v' hv'
  obtain ⟨u, hu, hou⟩ := (h.waiters d v').1 hv'
  obtain ⟨-, u', hu', -⟩ := h.backward _ u v'.side d hu hou
  have := h.below d u' hu'
  omega

theorem addPlan (h : b.Coherent) {e : Int} {plan : Plan} {timings : Timings}
    (hl : Task.Linked e b.nextId (b.tasksFor e plan timings)) :
    (b.addPlan e plan timings).Coherent := by
  have hget := h.get?_addPlan hl
  have hlength : (b.tasksFor e plan timings).length = plan.size := plan.length_tasks _ _ _
  constructor
  case id_eq =>
    intro id t ht
    rcases (hget id t).1 ht with ⟨-, hid⟩ | ht
    · exact hid
    · exact h.id_eq id t ht
  case ready =>
    intro id
    rw [h.contains_ready_addPlan hl, h.ready]
    constructor
    · rintro (⟨t, ht, hid, hrun⟩ | ⟨t, ht, hrun⟩)
      · exact ⟨t, (hget id t).2 (.inl ⟨ht, hid⟩), hrun⟩
      · exact ⟨t, (hget id t).2 (.inr ht), hrun⟩
    · rintro ⟨t, ht, hrun⟩
      rcases (hget id t).1 ht with ⟨ht, hid⟩ | ht
      · exact .inl ⟨t, ht, hid, hrun⟩
      · exact .inr ⟨t, ht, hrun⟩
  case waiters =>
    intro dep w
    rw [h.get?_waiters_addPlan hl, h.waiters]
    constructor
    · rintro (⟨t, ht, hid, ho⟩ | ⟨t, ht, ho⟩)
      · exact ⟨t, (hget _ t).2 (.inl ⟨ht, hid.symm⟩), ho⟩
      · exact ⟨t, (hget _ t).2 (.inr ht), ho⟩
    · rintro ⟨t, ht, ho⟩
      rcases (hget _ t).1 ht with ⟨ht, hid⟩ | ht
      · exact .inl ⟨t, ht, hid.symm, ho⟩
      · exact .inr ⟨t, ht, ho⟩
  case backward =>
    intro id t side dep ht ho
    rcases (hget id t).1 ht with ⟨hmem, hid⟩ | ht
    · obtain ⟨hlow, hlt⟩ := hl.backward t hmem side dep ho
      have hhigh := (hl.mem_id hmem).2
      obtain ⟨u, hu, rfl⟩ := hl.exists_of_id hlow (by omega)
      exact ⟨by omega, u, (hget _ u).2 (.inl ⟨hu, rfl⟩), by rw [hl.owner u hu, hl.owner t hmem]⟩
    · obtain ⟨hlt, u, hu, hown⟩ := h.backward id t side dep ht ho
      exact ⟨hlt, u, (hget _ u).2 (.inr hu), hown⟩
  case live =>
    intro e'
    rw [isLive_addPlan, h.live]
    constructor
    · rintro (⟨hsize, rfl⟩ | ⟨id, t, ht, hown⟩)
      · rw [← hlength] at hsize
        obtain ⟨t, ht⟩ := List.exists_mem_of_length_pos (Nat.pos_of_ne_zero hsize)
        exact ⟨t.id, t, (hget _ t).2 (.inl ⟨ht, rfl⟩), hl.owner t ht⟩
      · exact ⟨id, t, (hget _ t).2 (.inr ht), hown⟩
    · rintro ⟨id, t, ht, rfl⟩
      rcases (hget id t).1 ht with ⟨ht, -⟩ | ht
      · refine .inl ⟨?_, hl.owner t ht⟩
        have := List.length_pos_of_mem ht
        omega
      · exact .inr ⟨id, t, ht, rfl⟩
  case below =>
    intro id t ht
    have hnext : (b.addPlan e plan timings).nextId = b.nextId + plan.size := by rw [addPlan_eq]
    rw [hnext]
    rcases (hget id t).1 ht with ⟨hmem, hid⟩ | ht
    · have := (hl.mem_id hmem).2
      omega
    · have := h.below id t ht
      omega
  case begun =>
    intro id t ht hs
    rcases (hget id t).1 ht with ⟨ht, -⟩ | ht
    · exact absurd (hl.fresh t ht) hs
    · exact h.begun id t ht hs

theorem evict (h : b.Coherent) (e : Int) : (b.evict e).Coherent := by
  have hget := get?_evict h.id_eq e
  have hids := mem_idsOf_iff h.id_eq e
  have hready : ∀ id, (b.evict e).ready.contains id = true ↔
      id ∉ b.idsOf e ∧ b.ready.contains id = true := by
    intro id
    show (b.ready.eraseAll (b.idsOf e)).contains id = true ↔ _
    rw [IdMap.contains, IdMap.get?_eraseAll]
    by_cases hid : id ∈ b.idsOf e <;> simp [hid, IdMap.contains]
  have hwaiters : ∀ dep w, (b.evict e).waiters.get? dep = some w ↔
      dep ∉ b.idsOf e ∧ b.waiters.get? dep = some w := by
    intro dep w
    show (b.waiters.eraseAll (b.idsOf e)).get? dep = some w ↔ _
    rw [IdMap.get?_eraseAll]
    by_cases hid : dep ∈ b.idsOf e <;> simp [hid]
  have hlive : ∀ e', (b.evict e).isLive e' = true ↔ e' ≠ e ∧ b.isLive e' = true := by
    intro e'
    rw [isLive_evict, Bool.and_eq_true, bne_iff_ne]
  constructor
  case id_eq =>
    intro id t ht
    exact h.id_eq id t ((hget id t).1 ht).1
  case ready =>
    intro id
    rw [hready, h.ready, hids]
    constructor
    · rintro ⟨hnot, t, ht, hrun⟩
      exact ⟨t, (hget id t).2 ⟨ht, fun he => hnot ⟨t, ht, he⟩⟩, hrun⟩
    · rintro ⟨t, ht, hrun⟩
      obtain ⟨ht, hne⟩ := (hget id t).1 ht
      refine ⟨?_, t, ht, hrun⟩
      rintro ⟨u, hu, he⟩
      rw [ht] at hu
      cases hu
      exact hne he
  case waiters =>
    -- A task and the one it waits for have the same owner, so they leave together.
    intro dep w
    rw [hwaiters, h.waiters, hids]
    constructor
    · rintro ⟨hnot, t, ht, ho⟩
      obtain ⟨-, u, hu, hown⟩ := h.backward _ t w.side dep ht ho
      exact ⟨t, (hget _ t).2 ⟨ht, fun he => hnot ⟨u, hu, hown.trans he⟩⟩, ho⟩
    · rintro ⟨t, ht, ho⟩
      obtain ⟨ht, hne⟩ := (hget _ t).1 ht
      refine ⟨?_, t, ht, ho⟩
      rintro ⟨u, hu, he⟩
      obtain ⟨-, u', hu', hown⟩ := h.backward _ t w.side dep ht ho
      rw [hu] at hu'
      cases hu'
      exact hne (hown.symm.trans he)
  case backward =>
    intro id t side dep ht ho
    obtain ⟨ht, hne⟩ := (hget id t).1 ht
    obtain ⟨hlt, u, hu, hown⟩ := h.backward id t side dep ht ho
    exact ⟨hlt, u, (hget dep u).2 ⟨hu, fun he => hne (hown.symm.trans he)⟩, hown⟩
  case live =>
    intro e'
    rw [hlive, h.live]
    constructor
    · rintro ⟨hne, id, t, ht, rfl⟩
      exact ⟨id, t, (hget id t).2 ⟨ht, hne⟩, rfl⟩
    · rintro ⟨id, t, ht, rfl⟩
      obtain ⟨ht, hne⟩ := (hget id t).1 ht
      exact ⟨hne, id, t, ht, rfl⟩
  case below =>
    intro id t ht
    exact h.below id t ((hget id t).1 ht).1
  case begun =>
    intro id t ht
    exact h.begun id t ((hget id t).1 ht).1

end Coherent

end Reckoner.Board
