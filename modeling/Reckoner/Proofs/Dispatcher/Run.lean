/-
Reckoner.Proofs.Dispatcher.Run — the board and the ledger through any events.

Nothing is asked of reports here: they may carry any id, any number and any
error. Calls may be refused, and the dispatcher may be restarted at any time,
which leaves it nothing but its ledger.

`InStep` is what every run keeps. An expression is live only while its row has
not ended, and a task that was handed out has started its row. With the order of
the board (`Board.exists_runnable_or_computing`) this gives that no live
expression is stuck (`never_stuck`).

  1. Runs
  2. The invariant
  3. Changes of the ledger and of the board
  4. Operations
  5. Every run
-/
import Reckoner.Proofs.Board.Progress
import Reckoner.Proofs.Dispatcher.Effect
import Reckoner.Proofs.Dispatcher.Session

namespace Reckoner

variable {σ : Type} [Ledger σ]

/-! ## 1. Runs -/

/-- What happens to a dispatcher. -/
inductive Event where
  | request (q : Request)
  | restart

namespace Session

/-- The session after one more event. A restart forgets what was handed out. -/
def next (s : Session σ) : Event → Session σ
  | .request q => s.step q
  | .restart => ⟨s.dispatcher.restart, []⟩

/-- The session after some events. -/
def run (s : Session σ) (es : List Event) : Session σ := es.foldl next s

/-- A claim does to the dispatcher what it does without a session. -/
theorem dispatcher_claim (s : Session σ) : (s.step .claim).dispatcher = s.dispatcher.claim.2 := by
  rw [step]
  split
  · next hcall => rw [hcall]
  · next hcall => rw [hcall]

end Session

/-! ## 2. The invariant -/

/-- The row of an expression has not ended, and it has started if one of the
tasks of the expression has. -/
structure Covers (row : Expression) (ts : List Task) (e : Int) : Prop where
  isOpen : row.isFinished = false
  started : ∀ t ∈ ts, t.expressionId = e → t.status ≠ .pending → row.status = .computing

theorem Expression.pending_or_computing {e : Expression} (h : e.isFinished = false) :
    e.status = .pending ∨ e.status = .computing := by
  rw [isFinished] at h
  cases hs : e.status with
  | pending => exact .inl rfl
  | computing => exact .inr rfl
  | done => simp [hs, Status.isFinal] at h
  | error => simp [hs, Status.isFinal] at h

namespace Covers

variable {row : Expression} {ts ts' : List Task} {e : Int}

/-- Tasks that have started come from tasks that had. -/
theorem of_started (h : Covers row ts e)
    (hold : ∀ u ∈ ts', u.status ≠ .pending →
      ∃ t ∈ ts, t.expressionId = u.expressionId ∧ t.status ≠ .pending) : Covers row ts' e where
  isOpen := h.isOpen
  started u hu he hs := by
    obtain ⟨t, ht, hte, hts⟩ := hold u hu hs
    exact h.started t ht (hte.trans he) hts

/-- A row that has not ended is started by handing out a task. -/
theorem status_started (h : Covers row ts e) : row.started.status = .computing := by
  rw [Expression.started]
  split
  · rfl
  · next hs => exact (Expression.pending_or_computing h.isOpen).resolve_left hs

end Covers

variable [LawfulLedger σ]

/-- A board and a ledger, once some tasks have been handed out. -/
structure InStep (b : Board) (s : σ) (out : List Task) : Prop where
  valid : LawfulLedger.Valid s
  served : b.Served
  computing : ∀ t ∈ b.tasks.values, t.status = .computing → t ∈ out
  out : ∀ t ∈ out, t.status = .computing
  covered : ∀ e, b.isLive e = true → ∃ row, Ledger.get? e s = some row ∧
    Covers row b.tasks.values e

namespace InStep

variable {s s' : σ} {b b' : Board} {out : List Task}

theorem coherent (h : InStep b s out) : b.Coherent := h.served.reachable.coherent

theorem start (h : LawfulLedger.Valid s) : InStep .empty s [] where
  valid := h
  served := .empty
  computing _ ht := nomatch ht
  out _ ht := nomatch ht
  covered _ he := nomatch he

/-- An expression without a row is not live. -/
theorem isLive_of_fresh (h : InStep b s out) {id : Int} (hfresh : Ledger.get? id s = none) :
    b.isLive id = false := by
  rw [← Bool.not_eq_true]
  intro hlive
  obtain ⟨row, hrow, -⟩ := h.covered id hlive
  rw [hfresh] at hrow
  cases hrow

/-! ## 3. Changes of the ledger and of the board -/

theorem ignores (h : InStep b s out) (hignores : Ledger.Ignores s s') : InStep b s' out where
  valid := hignores.valid
  served := h.served
  computing := h.computing
  out := h.out
  covered e he := by
    obtain ⟨row, hrow, hcovers⟩ := h.covered e he
    exact ⟨row, (hignores.same e).trans hrow, hcovers⟩

/-- One row changes; it still covers its expression while that is live. -/
theorem sets (h : InStep b s out) {id : Int} {row : Expression} (hsets : Ledger.Sets id row s s')
    (hlive : b.isLive id = true → Covers row b.tasks.values id) : InStep b s' out where
  valid := hsets.valid
  served := h.served
  computing := h.computing
  out := h.out
  covered e he := by
    by_cases hid : e = id
    · subst hid
      exact ⟨row, hsets.get?_self, hlive he⟩
    · obtain ⟨row', hrow', hcovers⟩ := h.covered e he
      exact ⟨row', (hsets.get?_of_ne hid).trans hrow', hcovers⟩

/-- The row of an expression that is not live may change in any way. -/
theorem sets_of_not_live (h : InStep b s out) {id : Int} {row : Expression}
    (hsets : Ledger.Sets id row s s') (hlive : b.isLive id = false) : InStep b s' out :=
  h.sets hsets fun hl => by
    rw [hlive] at hl
    cases hl

/-- The row of the task at the head covers its expression. -/
theorem covers_of_peek? (h : InStep b s out) {t : Task} (hpeek : b.peek? = some t)
    {row : Expression} (hfound : Ledger.get? t.expressionId s = some row) :
    Covers row b.tasks.values t.expressionId := by
  have hlive := h.coherent.isLive_of_get? (Board.get?_of_peek? h.coherent hpeek)
  obtain ⟨row', hrow', hcovers⟩ := h.covered t.expressionId hlive
  rw [hfound] at hrow'
  cases hrow'
  exact hcovers

/-- A row that covers its expression may start. -/
theorem starts (h : InStep b s out) {id : Int} {row : Expression}
    (hcovers : Covers row b.tasks.values id) (hsets : Ledger.Sets id row.started s s') :
    InStep b s' out :=
  h.sets hsets fun _ =>
    ⟨by rw [row.isFinished_started, hcovers.isOpen], fun _ _ _ _ => hcovers.status_started⟩

/-- No task comes, and none goes out. -/
theorem of_tasks (h : InStep b s out) (hserved : b'.Served)
    (hcomputing : ∀ u ∈ b'.tasks.values, u.status = .computing → u ∈ b.tasks.values)
    (hold : ∀ u ∈ b'.tasks.values, ∃ t ∈ b.tasks.values, t.expressionId = u.expressionId ∧
      (u.status ≠ .pending → t.status ≠ .pending)) : InStep b' s out where
  valid := h.valid
  served := hserved
  computing u hu hs := h.computing u (hcomputing u hu hs) hs
  out := h.out
  covered e he := by
    obtain ⟨u, hu, hue⟩ := (Board.isLive_iff_exists_mem hserved.reachable.coherent e).1 he
    obtain ⟨t, ht, hte, -⟩ := hold u hu
    have he' := (Board.isLive_iff_exists_mem h.coherent e).2 ⟨t, ht, hte.trans hue⟩
    obtain ⟨row, hrow, hcovers⟩ := h.covered e he'
    refine ⟨row, hrow, hcovers.of_started fun u hu hs => ?_⟩
    obtain ⟨t, ht, hte, hstarted⟩ := hold u hu
    exact ⟨t, ht, hte, hstarted hs⟩

/-- The tasks of an expression that is not live come on the board. -/
theorem addPlan (h : InStep b s out) {e : Int} {row : Expression} {tokens : List String}
    {plan : Plan} {timings : Timings} (hlive : b.isLive e = false)
    (hrow : Ledger.get? e s = some row) (hopen : row.isFinished = false)
    (htokens : Plan.ofTokens tokens = .ok plan) : InStep (b.addPlan e plan timings) s out := by
  have hl := Board.linked_tasksFor htokens b e timings
  have hvalues := h.coherent.values_addPlan hl
  refine ⟨h.valid, .addPlan e timings h.served htokens hlive, fun t ht hs => ?_, h.out,
    fun e' he' => ?_⟩
  · rw [hvalues] at ht
    rcases List.mem_append.1 ht with ht | ht
    · exact h.computing t ht hs
    · rw [hl.fresh t ht] at hs
      cases hs
  · -- What has started was on the board before.
    have hbefore : ∀ u ∈ (b.addPlan e plan timings).tasks.values, u.status ≠ .pending →
        u ∈ b.tasks.values := by
      intro u hu hs
      rw [hvalues] at hu
      exact (List.mem_append.1 hu).resolve_right fun hu => hs (hl.fresh u hu)
    rcases (b.isLive_addPlan e plan timings e').1 he' with ⟨-, rfl⟩ | hold
    · refine ⟨row, hrow, hopen, fun t ht hte hs => ?_⟩
      have hlive' := h.coherent.isLive_of_get?
        ((Board.mem_tasks_iff h.coherent).1 (hbefore t ht hs))
      rw [hte, hlive] at hlive'
      cases hlive'
    · obtain ⟨row', hrow', hcovers⟩ := h.covered e' hold
      exact ⟨row', hrow', hcovers.of_started fun u hu hs => ⟨u, hbefore u hu hs, rfl, hs⟩⟩

/-- A task goes out with a worker, once its row has started. -/
theorem handOut (h : InStep b s out) {t : Task} (hpeek : b.peek? = some t) {row : Expression}
    (hrow : Ledger.get? t.expressionId s = some row) (hstarted : row.status = .computing) :
    InStep (b.handOut t.id t) s ({ t with status := .computing } :: out) := by
  have hget := Board.get?_of_peek? h.coherent hpeek
  have hvalues := Board.values_handOut h.coherent hget
  have hserved : (b.handOut t.id t).Served :=
    .claim h.served (Board.claim?_of_peek? h.coherent hpeek)
  refine ⟨h.valid, hserved, ?_, ?_, fun e he => ?_⟩
  · rw [hvalues]
    refine List.forall_mem_map.2 fun u hu hs => ?_
    rw [Board.handedOut] at hs ⊢
    split at hs
    · next hid =>
      rw [if_pos hid, Board.eq_of_id_eq h.coherent hget hu hid]
      exact List.mem_cons_self
    · next hid =>
      rw [if_neg hid]
      exact List.mem_cons_of_mem _ (h.computing u hu hs)
  · intro u hu
    rcases List.mem_cons.1 hu with rfl | hu
    · rfl
    · exact h.out u hu
  · obtain ⟨row', hrow', hcovers⟩ := h.covered e he
    refine ⟨row', hrow', hcovers.isOpen, ?_⟩
    rw [hvalues]
    refine List.forall_mem_map.2 fun u hu hue hs => ?_
    rw [Board.expressionId_handedOut] at hue
    rw [Board.handedOut] at hs
    split at hs
    · next hid =>
      rw [Board.eq_of_id_eq h.coherent hget hu hid] at hue
      rw [← hue, hrow] at hrow'
      cases hrow'
      exact hstarted
    · exact hcovers.started u hu hue hs

/-- A result goes on the board. -/
theorem progressed (h : InStep b s out) {r : Report} {unblocked : Option Int}
    (hcomplete : b.complete r = .ok (.progressed unblocked, b')) : InStep b' s out := by
  obtain ⟨t, ht, hs, hc⟩ := Board.completes_of_complete hcomplete
  have hvalues : b'.tasks.values = b.tasks.values.map (Board.afterValue r) := by
    cases hc with
    | progressed isValue some_left => exact Board.values_afterValue h.coherent ht hs
  refine h.of_tasks (h.served.progressed hcomplete) ?_ ?_
  · rw [hvalues]
    refine List.forall_mem_map.2 fun u hu hus => ?_
    rwa [Board.afterValue_of_computing h.coherent hu hus]
  · rw [hvalues]
    refine List.forall_mem_map.2 fun u hu => ⟨u, hu, (Board.expressionId_afterValue r u).symm, ?_⟩
    intro hstarted
    by_cases hid : u.id = r.id
    · -- The task of the report had been handed out.
      rw [Board.eq_of_id_eq h.coherent ht hu hid, hs]
      exact fun hpending => nomatch hpending
    · have hsame : (Board.afterValue r u).status = (Board.reported r u).status := rfl
      rwa [hsame, Board.reported, if_neg hid] at hstarted

/-- An expression ends, and its tasks leave the board. -/
theorem ended (h : InStep b s out) {r : Report} {e : Int} {o : Outcome}
    (hcomplete : b.complete r = .ok (.finished e o, b')) : InStep (b'.evict e) s out := by
  obtain ⟨t, ht, hs, hc⟩ := Board.completes_of_complete hcomplete
  have he := hc.owner_of_finished
  subst he
  have hmem : ∀ u ∈ (b'.evict t.expressionId).tasks.values, u ∈ b.tasks.values := by
    rw [Board.values_evict_of_completes h.coherent ht hs hc rfl]
    exact fun u hu => (List.mem_filter.1 hu).1
  exact h.of_tasks (h.served.finished hcomplete) (fun u hu _ => hmem u hu)
    fun u hu => ⟨u, hmem u hu, rfl, id⟩

end InStep

/-! ## 4. Operations -/

namespace InStep

variable {d d' : Dispatcher σ} {out : List Task}

theorem keptByChanges (out : List Task) :
    Dispatcher.KeptByChanges fun d : Dispatcher σ => InStep d.board d.ledger out where
  ignores h := h.ignores
  sets h _ := h.sets_of_not_live
  addPlan h hlive hrow hopen hplan := by
    obtain ⟨-, tokens, -, -, htokens⟩ := Plan.exists_tree_of_ofFormula hplan
    exact h.addPlan hlive hrow hopen htokens
  recordEnd _ h := h
  recordSubmission h := h
  recordRecovery _ h := h
  isLive_of_fresh h := h.isLive_of_fresh
  progressed _ h := h.progressed
  ended _ h := h.ended
  setsEnded h := h.sets_of_not_live

theorem claim (h : InStep d.board d.ledger out) {answer : Except DispatchError Task}
    (hclaims : Dispatcher.Claims d answer d') :
    match answer with
    | .ok t => InStep d'.board d'.ledger (t :: out)
    | .error _ => InStep d'.board d'.ledger out := by
  cases hclaims with
  | idle nothing => exact h
  | refused next ignores => exact h.ignores ignores
  | handedOut next found sets =>
    have hcovers := h.covers_of_peek? next found
    exact (h.starts hcovers sets).handOut next sets.get?_self hcovers.status_started

end InStep

/-! ## 5. Every run -/

namespace Session

variable {before : σ} {timings : Timings}

/-- The board, the ledger and the tasks handed out are in step. -/
def IsInStep (s : Session σ) : Prop := InStep s.dispatcher.board s.dispatcher.ledger s.handedOut

theorem isInStep_next {s : Session σ} (h : s.IsInStep) (ev : Event) : (s.next ev).IsInStep := by
  cases ev with
  | restart => exact .start h.valid
  | request q =>
    cases q with
    | submit text owner =>
      exact (Dispatcher.submits h.valid text owner).keeps (InStep.keptByChanges _).toKeptByTakingUp h
    | report r => exact (Dispatcher.reports h.valid r).keeps (InStep.keptByChanges _) h
    | recover => exact (Dispatcher.recovers h.valid).keeps (InStep.keptByChanges _).toKeptByTakingUp h
    | claim =>
      have hclaims := Dispatcher.claims h.valid h.coherent
      rw [next, step]
      cases hcall : s.dispatcher.claim with
      | mk answer d =>
        rw [hcall] at hclaims
        have hclaim := InStep.claim h hclaims
        cases answer <;> exact hclaim

theorem isInStep_run {s : Session σ} (h : s.IsInStep) (es : List Event) : (s.run es).IsInStep := by
  induction es generalizing s with
  | nil => exact h
  | cons ev es ih => exact ih (isInStep_next h ev)

theorem isInStep_start (hvalid : LawfulLedger.Valid before) :
    (start timings before).IsInStep := .start hvalid

/-- No live expression is stuck, whatever happens and whichever calls are refused.
A claim finds no task only if every live expression has one out with a worker. -/
theorem never_stuck (hvalid : LawfulLedger.Valid before) (es : List Event) :
    let s := (start timings before).run es
    let b := s.dispatcher.board
    (∀ e, b.tasksOf e ≠ [] →
      (∃ t ∈ b.tasksOf e,
        t.isRunnable = true ∧ b.ready.contains t.id = true ∨ t.status = .computing) ∧
      (∀ t ∈ b.tasksOf e, t.status ≠ .error) ∧
      ∃ t ∈ b.tasksOf e, t.status.isFinal = false) ∧
    (s.dispatcher.claim.1 = .error .noTaskAvailable → ∀ e, b.tasksOf e ≠ [] →
      ∃ t ∈ b.tasksOf e, t.status = .computing ∧ t ∈ s.handedOut) := by
  intro s b
  have h : s.IsInStep := isInStep_run (isInStep_start hvalid) es
  have hgoes : ∀ e, b.tasksOf e ≠ [] →
      ∃ t ∈ b.tasksOf e, t.isRunnable = true ∨ t.status = .computing := by
    intro e he
    obtain ⟨u, hu⟩ := List.exists_mem_of_ne_nil _ he
    obtain ⟨hu, hue⟩ := List.mem_filter.1 hu
    have hlive := (Board.isLive_iff_exists_mem h.coherent e).2 ⟨u, hu, beq_iff_eq.1 hue⟩
    obtain ⟨t, ht, hte, hgo⟩ := Board.exists_runnable_or_computing h.served hlive
    exact ⟨t, List.mem_filter.2 ⟨ht, beq_iff_eq.2 hte⟩, hgo⟩
  refine ⟨fun e he => ⟨?_, fun t ht => ?_, ?_⟩, fun hclaim e he => ?_⟩
  · obtain ⟨t, ht, hrun | hs⟩ := hgoes e he
    · have hget := (Board.mem_tasks_iff h.coherent).1 (List.mem_filter.1 ht).1
      exact ⟨t, ht, .inl ⟨hrun, (h.coherent.ready t.id).2 ⟨t, hget, hrun⟩⟩⟩
    · exact ⟨t, ht, .inr hs⟩
  · exact h.served.flowing.unfailed t (List.mem_filter.1 ht).1
  · obtain ⟨t, ht, hrun | hs⟩ := hgoes e he
    · exact ⟨t, ht, by rw [(t.isRunnable_iff.1 hrun).1]; rfl⟩
    · exact ⟨t, ht, by rw [hs]; rfl⟩
  · have hclaims := Dispatcher.claims h.valid h.coherent
    rw [hclaim] at hclaims
    have hnone := hclaims.nothing
    rw [Board.peek?_eq_find? h.coherent, List.find?_eq_none] at hnone
    obtain ⟨t, ht, hrun | hs⟩ := hgoes e he
    · exact absurd hrun (hnone t (List.mem_filter.1 ht).1)
    · exact ⟨t, ht, hs, h.computing t (List.mem_filter.1 ht).1 hs⟩

/-- The second call to start an expression is refused, and its task waits for the
next claim. -/
theorem never_stuck_product :
    let ledger := (FaultyLedger.ofLedger ({} : MemoryLedger) fun _ => "").withRefusals
      .start [false, true]
    let events : List Event := [.request (.submit "1+2*3" 1), .request (.submit "4-5" 1),
      .request .claim, .request .claim, .request .claim]
    let s := (start {} ledger).run events
    s.dispatcher.claim.1 = .error .noTaskAvailable ∧
      ∃ t ∈ s.dispatcher.board.tasksOf 1, t.status = .computing ∧ t ∈ s.handedOut := by
  intro ledger events s
  have hempty : LawfulLedger.Valid ledger := fun _ _ h => nomatch h
  have hclaim : s.dispatcher.claim.1 = .error .noTaskAvailable := by decide +kernel
  have hs : s = (start {} ledger).run events := rfl
  obtain ⟨-, hout⟩ := @never_stuck _ _ _ ledger {} hempty events
  rw [← hs] at hout
  exact ⟨hclaim, hout hclaim 1 (by decide +kernel)⟩

end Session

end Reckoner
