/-
Reckoner.Proofs.Board.Moves — what a board may become.

A dispatcher moves its board in four ways (`Move`). None of them brings a task
back, gives an id a second time or sends a status backward: a task that was on
the board before is there still, under the same expression and with a status
that may follow on the old one, or it has left for good (`Becomes`). So a task
that has begun is never to be handed out again, and one that has ended is never
being computed again.

  1. Moves
  2. What a board may become
  3. What a move makes of a board
  4. Tasks that have begun, and tasks that have ended
-/
import Mathlib.Logic.Relation
import Reckoner.Proofs.Board.Scan

namespace Reckoner.Board

/-! ## 1. Moves -/

/-- What a dispatcher does to its board in one go. -/
inductive Move : Board → Board → Prop
  | admitted {b : Board} {tokens : List String} {plan : Plan} (e : Int) (timings : Timings)
      (formula : Plan.ofTokens tokens = .ok plan) : Move b (b.addPlan e plan timings)
  | handedOut {b : Board} {t : Task} (next : b.peek? = some t) : Move b (b.handOut t.id t)
  | progressed {b b' : Board} {r : Report} {unblocked : Option Int}
      (completes : b.complete r = .ok (.progressed unblocked, b')) : Move b b'
  | ended {b b' : Board} {r : Report} {e : Int} {o : Outcome}
      (completes : b.complete r = .ok (.finished e o, b')) : Move b (b'.evict e)

/-- What some moves, one after the other, make of a board. -/
abbrev Moves : Board → Board → Prop := Relation.ReflTransGen Move

variable {b b' : Board}

theorem Move.coherent (h : Move b b') (hb : b.Coherent) : b'.Coherent := by
  cases h with
  | admitted e timings formula => exact hb.addPlan (linked_tasksFor formula b e timings)
  | handedOut next => exact hb.claim? (claim?_of_peek? hb next)
  | progressed completes => exact hb.complete completes
  | ended completes => exact (hb.complete completes).evict _

/-! ## 2. What a board may become -/

/-- A board and what it is found to be later. -/
structure Becomes (b b' : Board) : Prop where
  nextId_le : b.nextId ≤ b'.nextId
  /-- The tasks under ids that were used before. -/
  origin : ∀ u ∈ b'.tasks.values, u.id < b.nextId → ∃ t ∈ b.tasks.values,
    t.id = u.id ∧ t.expressionId = u.expressionId ∧ t.status.LeadsTo u.status

namespace Becomes

theorem refl (b : Board) : Becomes b b :=
  ⟨Int.le_refl _, fun u hu _ => ⟨u, hu, rfl, rfl, .refl _⟩⟩

theorem trans {b'' : Board} (h : Becomes b b') (h' : Becomes b' b'') : Becomes b b'' where
  nextId_le := Int.le_trans h.nextId_le h'.nextId_le
  origin u hu hlow := by
    obtain ⟨v, hv, hid, howner, hstatus⟩ :=
      h'.origin u hu (Int.lt_of_lt_of_le hlow h.nextId_le)
    obtain ⟨t, ht, hid', howner', hstatus'⟩ := h.origin v hv (by rwa [hid])
    exact ⟨t, ht, hid'.trans hid, howner'.trans howner, hstatus'.trans hstatus⟩

/-- The same tasks, each changed in its place. -/
theorem of_map {f : Task → Task} (hvalues : b'.tasks.values = b.tasks.values.map f)
    (hnext : b'.nextId = b.nextId) (hid : ∀ t, (f t).id = t.id)
    (howner : ∀ t, (f t).expressionId = t.expressionId)
    (hstatus : ∀ t ∈ b.tasks.values, t.status.LeadsTo (f t).status) : Becomes b b' where
  nextId_le := Int.le_of_eq hnext.symm
  origin := by
    rw [hvalues]
    exact List.forall_mem_map.2 fun t ht _ =>
      ⟨t, ht, (hid t).symm, (howner t).symm, hstatus t ht⟩

end Becomes

/-! ## 3. What a move makes of a board -/

theorem becomes_addPlan (h : b.Coherent) {e : Int} {plan : Plan} {timings : Timings}
    (hl : Task.Linked e b.nextId (b.tasksFor e plan timings)) :
    Becomes b (b.addPlan e plan timings) where
  nextId_le := Int.le_add_of_nonneg_right (Int.natCast_nonneg plan.size)
  origin u hu hlow := by
    rw [h.values_addPlan hl] at hu
    rcases List.mem_append.1 hu with hu | hu
    · exact ⟨u, hu, rfl, rfl, .refl _⟩
    · -- The new tasks have ids that were not used before.
      have := (hl.mem_id hu).1
      omega

theorem becomes_handOut (h : b.Coherent) {t : Task} (hpeek : b.peek? = some t) :
    Becomes b (b.handOut t.id t) := by
  have hget := get?_of_peek? h hpeek
  refine .of_map (values_handOut h hget) rfl (id_handedOut t.id) (expressionId_handedOut t.id)
    fun u hu => ?_
  rw [handedOut]
  split
  · next hid =>
    rw [eq_of_id_eq h hget hu hid, status_of_peek? h hpeek]
    exact .start
  · exact .refl _

/-- The report of a value ends the task it is on. -/
theorem leadsTo_afterValue (h : b.Coherent) {r : Report} {t u : Task}
    (ht : b.get? r.id = some t) (hs : t.status = .computing) (hu : u ∈ b.tasks.values) :
    u.status.LeadsTo (afterValue r u).status := by
  show u.status.LeadsTo (reported r u).status
  rw [reported]
  split
  · next hid =>
    rw [eq_of_id_eq h ht hu hid, hs]
    exact .finish rfl rfl
  · exact .refl _

theorem becomes_progressed (h : b.Coherent) {r : Report} {unblocked : Option Int}
    (hc : b.complete r = .ok (.progressed unblocked, b')) : Becomes b b' := by
  obtain ⟨t, ht, hs, hcompletes⟩ := completes_of_complete hc
  cases hcompletes with
  | progressed isValue some_left =>
    exact .of_map (values_afterValue h ht hs) (nextId_resolve _ _ _) (id_afterValue r)
      (expressionId_afterValue r) fun u hu => leadsTo_afterValue h ht hs hu

theorem becomes_ended (h : b.Coherent) {r : Report} {e : Int} {o : Outcome}
    (hc : b.complete r = .ok (.finished e o, b')) : Becomes b (b'.evict e) := by
  obtain ⟨t, ht, hs, hcompletes⟩ := completes_of_complete hc
  have he := hcompletes.owner_of_finished
  subst he
  refine ⟨Int.le_of_eq ?_, fun u hu _ => ?_⟩
  · cases hcompletes <;> rfl
  · rw [values_evict_of_completes h ht hs hcompletes rfl] at hu
    exact ⟨u, (List.mem_filter.1 hu).1, rfl, rfl, .refl _⟩

theorem Move.becomes (h : Move b b') (hb : b.Coherent) : Becomes b b' := by
  cases h with
  | admitted e timings formula => exact becomes_addPlan hb (linked_tasksFor formula b e timings)
  | handedOut next => exact becomes_handOut hb next
  | progressed completes => exact becomes_progressed hb completes
  | ended completes => exact becomes_ended hb completes

theorem Moves.becomes (h : Moves b b') (hb : b.Coherent) : b'.Coherent ∧ Becomes b b' := by
  induction h with
  | refl => exact ⟨hb, .refl b⟩
  | tail _ hmove ih =>
    obtain ⟨hmiddle, hfirst⟩ := ih
    exact ⟨hmove.coherent hmiddle, hfirst.trans (hmove.becomes hmiddle)⟩

/-! ## 4. Tasks that have begun, and tasks that have ended -/

/-- The id was given to a task that is not pending any more. -/
structure HasBegun (b : Board) (id : Int) : Prop where
  below : id < b.nextId
  begun : ∀ t ∈ b.tasks.values, t.id = id → t.status ≠ .pending

/-- The id was given to a task that has ended; it may have left the board. -/
structure HasEnded (b : Board) (id : Int) : Prop where
  below : id < b.nextId
  ended : ∀ t ∈ b.tasks.values, t.id = id → t.status.isFinal = true

variable {id : Int}

theorem HasEnded.hasBegun (h : b.HasEnded id) : b.HasBegun id where
  below := h.below
  begun t ht hid hpending := by
    have hfinal := h.ended t ht hid
    rw [hpending] at hfinal
    cases hfinal

theorem HasBegun.later (h : b.HasBegun id) (hb : Becomes b b') : b'.HasBegun id where
  below := Int.lt_of_lt_of_le h.below hb.nextId_le
  begun u hu hid hpending := by
    subst hid
    obtain ⟨t, ht, hid, -, hstatus⟩ := hb.origin u hu h.below
    rw [hpending] at hstatus
    exact h.begun t ht hid hstatus.eq_pending

theorem HasEnded.later (h : b.HasEnded id) (hb : Becomes b b') : b'.HasEnded id where
  below := Int.lt_of_lt_of_le h.below hb.nextId_le
  ended u hu hid := by
    subst hid
    obtain ⟨t, ht, hid, -, hstatus⟩ := hb.origin u hu h.below
    have hfinal := h.ended t ht hid
    rwa [hstatus.eq_of_final hfinal]

/-- A task that has begun is not handed out next. -/
theorem HasBegun.ne_of_peek? (h : b.HasBegun id) (hb : b.Coherent) {t : Task}
    (hpeek : b.peek? = some t) : t.id ≠ id := fun hid =>
  h.begun t (mem_of_peek? hb hpeek) hid (status_of_peek? hb hpeek)

/-- A task that is handed out has begun. -/
theorem hasBegun_handOut (h : b.Coherent) {t : Task} (hpeek : b.peek? = some t) :
    (b.handOut t.id t).HasBegun t.id := by
  have hget := get?_of_peek? h hpeek
  refine ⟨h.below t.id t hget, ?_⟩
  rw [values_handOut h hget]
  refine List.forall_mem_map.2 fun u _ hid => ?_
  rw [id_handedOut] at hid
  rw [handedOut, if_pos hid]
  exact Status.noConfusion

/-- The task of a report that is taken has ended. -/
theorem hasEnded_progressed (h : b.Coherent) {r : Report} {unblocked : Option Int}
    (hc : b.complete r = .ok (.progressed unblocked, b')) : b'.HasEnded r.id := by
  obtain ⟨t, ht, hs, hcompletes⟩ := completes_of_complete hc
  have hbelow := h.below r.id t ht
  cases hcompletes with
  | progressed isValue some_left =>
    refine ⟨by rwa [nextId_resolve], ?_⟩
    rw [values_afterValue h ht hs]
    refine List.forall_mem_map.2 fun u _ hid => ?_
    rw [id_afterValue] at hid
    show (reported r u).status.isFinal = true
    rw [reported, if_pos hid]
    rfl

/-- Every task of an expression that leaves the board has ended. -/
theorem hasEnded_of_not_live (h : b.Coherent) (hb' : b'.Coherent) (hbecomes : Becomes b b')
    {t : Task} (ht : t ∈ b.tasks.values) (hgone : b'.isLive t.expressionId = false) :
    b'.HasEnded t.id := by
  have hget := (mem_tasks_iff h).1 ht
  have hbelow := h.below t.id t hget
  refine ⟨Int.lt_of_lt_of_le hbelow hbecomes.nextId_le, fun u hu hid => ?_⟩
  obtain ⟨v, hv, hvid, howner, -⟩ := hbecomes.origin u hu (by rwa [hid])
  have hlive := (isLive_iff_exists_mem hb' u.expressionId).2 ⟨u, hu, rfl⟩
  rw [← howner, eq_of_id_eq h hget hv (hvid.trans hid), hgone] at hlive
  cases hlive

/-- So has the task of a report that ends its expression, with all its others. -/
theorem hasEnded_ended (h : b.Coherent) {r : Report} {e : Int} {o : Outcome}
    (hc : b.complete r = .ok (.finished e o, b')) : (b'.evict e).HasEnded r.id := by
  obtain ⟨t, ht, -, hcompletes⟩ := completes_of_complete hc
  have howner := hcompletes.owner_of_finished
  have hended := hasEnded_of_not_live h ((h.complete hc).evict e) (becomes_ended h hc)
    (mem_tasks_of_get? h ht) (by rw [howner, isLive_evict_self])
  rwa [h.id_eq r.id t ht] at hended

end Reckoner.Board
