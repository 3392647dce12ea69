/-
Reckoner.Proofs.Board.Progress — no live expression is stuck.

A task waits only for tasks that have not ended, because a result is put in the
place of the reference to its task at once, and an expression one of whose tasks
has failed leaves the board (`Flowing`). So the open task of lowest id waits for
nothing: what it could refer to has a lower id and would be open too. It can be
handed out, or it is being computed already.

  1. Nothing is waited for in vain
  2. Boards in the order of a dispatcher
  3. A task to go on with
-/
import Reckoner.Proofs.Board.Scan

namespace Reckoner

/-! ## 1. Nothing is waited for in vain -/

/-- No task has failed, and a task that another refers to has not ended. -/
structure Flowing (ts : List Task) : Prop where
  unfailed : ∀ t ∈ ts, t.status ≠ .error
  awaited : ∀ t ∈ ts, ∀ u ∈ ts, ∀ side, u.operand side = .pending t.id → t.status.isFinal = false

namespace Flowing

variable {ts ts' : List Task}

theorem nil : Flowing [] := ⟨fun _ h => (nomatch h), fun _ h => nomatch h⟩

theorem subset (h : Flowing ts) (hsub : ∀ t ∈ ts', t ∈ ts) : Flowing ts' where
  unfailed t ht := h.unfailed t (hsub t ht)
  awaited t ht u hu := h.awaited t (hsub t ht) u (hsub u hu)

/-- Fresh tasks have not ended, and refer to no task from before. -/
theorem append (h : Flowing ts) {e first : Int} (hl : Task.Linked e first ts')
    (hbelow : ∀ t ∈ ts, t.id < first) : Flowing (ts ++ ts') where
  unfailed t ht := by
    rcases List.mem_append.1 ht with ht | ht
    · exact h.unfailed t ht
    · rw [hl.fresh t ht]
      exact Status.noConfusion
  awaited t ht u hu side ho := by
    rcases List.mem_append.1 ht with ht | ht
    · rcases List.mem_append.1 hu with hu | hu
      · exact h.awaited t ht u hu side ho
      · have hlow := (hl.backward u hu side t.id ho).1
        have := hbelow t ht
        omega
    · rw [hl.fresh t ht]
      rfl

/-- A task that goes out with a worker has not ended. -/
theorem handOut (h : Flowing ts) (id : Int) : Flowing (ts.map (Board.handedOut id)) where
  unfailed := by
    refine List.forall_mem_map.2 fun t ht => ?_
    rw [Board.handedOut]
    split
    · exact Status.noConfusion
    · exact h.unfailed t ht
  awaited := by
    refine List.forall_mem_map.2 fun t ht => List.forall_mem_map.2 fun u hu side ho => ?_
    rw [Board.operand_handedOut, Board.id_handedOut] at ho
    have hopen := h.awaited t ht u hu side ho
    rw [Board.handedOut]
    split
    · rfl
    · exact hopen

/-- A task that is done is referred to no longer. -/
theorem afterValue (h : Flowing ts) (r : Report) : Flowing (ts.map (Board.afterValue r)) where
  unfailed := by
    refine List.forall_mem_map.2 fun t ht => ?_
    show (Board.reported r t).status ≠ .error
    rw [Board.reported]
    split
    · exact Status.noConfusion
    · exact h.unfailed t ht
  awaited := by
    refine List.forall_mem_map.2 fun t ht => List.forall_mem_map.2 fun u hu side ho => ?_
    rw [Board.operand_afterValue, Board.id_afterValue, Operand.given] at ho
    split at ho
    · cases ho
    · next hother =>
      have hid : t.id ≠ r.id := fun hid => hother (by rw [ho, hid])
      have hopen := h.awaited t ht u hu side ho
      show (Board.reported r t).status.isFinal = false
      rw [Board.reported, if_neg hid, hopen]

end Flowing

namespace Board

variable {b b' : Board}

/-! ## 2. Boards in the order of a dispatcher -/

theorem Coherent.flowing_addPlan (h : b.Coherent) (hf : Flowing b.tasks.values) {e : Int}
    {plan : Plan} {timings : Timings}
    (hl : Task.Linked e b.nextId (b.tasksFor e plan timings)) :
    Flowing (b.addPlan e plan timings).tasks.values := by
  rw [h.values_addPlan hl]
  exact hf.append hl fun t ht => h.below t.id t ((mem_tasks_iff h).1 ht)

theorem Served.flowing (h : b.Served) : Flowing b.tasks.values := by
  induction h with
  | empty => exact .nil
  | addPlan e timings hb hplan _ ih =>
    exact hb.reachable.coherent.flowing_addPlan ih (linked_tasksFor hplan _ e timings)
  | claim hb hc ih =>
    obtain ⟨id, t, -, ht, -, rfl⟩ := claim?_eq_some hc
    rw [values_handOut hb.reachable.coherent ht]
    exact ih.handOut id
  | progressed hb hc ih =>
    obtain ⟨t, ht, hs, hcompletes⟩ := completes_of_complete hc
    cases hcompletes with
    | progressed isValue some_left =>
      rw [values_afterValue hb.reachable.coherent ht hs]
      exact ih.afterValue _
  | finished hb hc ih =>
    -- The failed task and those of its expression that are done leave together.
    obtain ⟨t, ht, hs, hcompletes⟩ := completes_of_complete hc
    have he := hcompletes.owner_of_finished
    subst he
    rw [values_evict_of_completes hb.reachable.coherent ht hs hcompletes rfl]
    exact ih.subset fun _ hu => (List.mem_filter.1 hu).1
  | evict e hb ih =>
    rw [values_evict hb.reachable.coherent.id_eq]
    exact ih.subset fun _ hu => (List.mem_filter.1 hu).1

/-! ## 3. A task to go on with -/

/-- The first open task of an expression waits for no other. -/
theorem isRunnable_or_computing (h : b.Coherent) (hf : Flowing b.tasks.values) {e : Int}
    {t : Task} (hfirst : b.tasks.values.find? (isOpen e) = some t) :
    t.isRunnable = true ∨ t.status = .computing := by
  obtain ⟨hopen, pre, post, hsplit, hpre⟩ := List.find?_eq_some_iff_append.1 hfirst
  have hmem := List.mem_of_find?_eq_some hfirst
  simp only [isOpen, Bool.and_eq_true, beq_iff_eq, Bool.not_eq_true'] at hopen
  cases hs : t.status with
  | computing => exact .inr rfl
  | done => simp [hs, Status.isFinal] at hopen
  | error => simp [hs, Status.isFinal] at hopen
  | pending =>
    refine .inl (t.isRunnable_iff.2 ⟨hs, fun side => ?_⟩)
    cases ho : t.operand side with
    | literal text => rfl
    | pending dep =>
      obtain ⟨hlt, u, hu, howner⟩ := h.backward t.id t side dep ((mem_tasks_iff h).1 hmem) ho
      have hid := h.id_eq dep u hu
      have humem := mem_tasks_of_get? h hu
      have huopen := hf.awaited u humem t hmem side (by rw [hid, ho])
      -- Its id is lower, so it stands in front of the first open task.
      have hasc := pairwise_id h
      rw [hsplit] at hasc humem
      simp only [List.map_append, List.map_cons, List.pairwise_append, List.pairwise_cons,
        List.forall_mem_map] at hasc
      rcases List.mem_append.1 humem with hbefore | hbehind
      · have := hpre u hbefore
        simp [isOpen, howner, hopen.1, huopen] at this
      · rcases List.mem_cons.1 hbehind with rfl | hbehind
        · omega
        · have := hasc.2.1.1 u hbehind
          omega

/-- Every live expression has a task that can be handed out or is being computed. -/
theorem exists_runnable_or_computing (h : b.Served) {e : Int} (hlive : b.isLive e = true) :
    ∃ t ∈ b.tasks.values, t.expressionId = e ∧ (t.isRunnable = true ∨ t.status = .computing) := by
  obtain ⟨n, hn⟩ := (IdMap.contains_eq_true_iff _ _).1 hlive
  have hpos := h.counted.count_pos e n hn
  rw [h.counted.count_eq e n hn, openCount, List.countP_pos_iff] at hpos
  obtain ⟨t, ht⟩ := Option.isSome_iff_exists.1 (List.find?_isSome.2 hpos)
  refine ⟨t, List.mem_of_find?_eq_some ht, ?_, isRunnable_or_computing h.reachable.coherent
    h.flowing ht⟩
  have hopen := List.find?_some ht
  rw [isOpen, Bool.and_eq_true, beq_iff_eq] at hopen
  exact hopen.1

end Board

end Reckoner
