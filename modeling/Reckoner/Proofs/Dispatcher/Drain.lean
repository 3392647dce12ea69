/-
Reckoner.Proofs.Dispatcher.Drain — a drain finishes all that is on the board.

A drain hands out a task, carries it out and reports on it before it goes on. So a
dispatcher that had no task out with a worker has none out again after each turn
(`Turn`), and the next task is always the pending one of lowest id. Each turn either
ends that task or takes its whole expression off the board, so that the drain comes
to an end (`exists_drains`), and by then every expression has ended.

An expression of which no task had been handed out is worked out in the order of its
plan, without interruption by the tasks of the others (`Prefixed`). It ends with what
its tree is worth, and an error is that of the first node without a value.

  1. Call after call
  2. One turn
  3. The turns of a drain
  4. Which tasks are handled
  5. Every expression ends
  6. Expressions worked out from the beginning
  7. Every drain
-/
import Reckoner.Proofs.Board.Idle
import Reckoner.Proofs.Dispatcher.CaughtUp
import Reckoner.Proofs.Dispatcher.Charted
import Reckoner.Proofs.Formula.InOrder
import Reckoner.Worker.Agent

namespace Reckoner

variable {σ : Type} [Ledger σ]

theorem Expression.endedWith_started {keep : Number → Number} {row : Expression}
    (h : row.isFinished = false) (o : Outcome) :
    row.started.endedWith keep o = row.endedWith keep o := by
  have hstarted : row.started.isFinished = false := by rw [row.isFinished_started, h]
  rw [Expression.endedWith_of_unfinished hstarted, Expression.endedWith_of_unfinished h,
    Expression.started]
  split <;> rfl

namespace Dispatcher

variable {d d' : Dispatcher σ} {t : Task}

/-! ## 1. Call after call -/

theorem drain_of_peek?_none (hpeek : d.board.peek? = none) (n : Nat) :
    d.drain (n + 1) = ([], some .noTaskAvailable, d) := by
  simp [drain, claim, hpeek]

theorem drain_of_claim_error {err : DispatchError} (hclaim : d.claim.1 = .error err) (n : Nat) :
    (d.drain (n + 1)).2.1 = some err := by
  rw [drain]
  generalize d.claim = called at hclaim ⊢
  obtain ⟨answer, d₁⟩ := called
  cases hclaim
  rfl

theorem drain_of_claim_ok {u : Task} (hclaim : d.claim.1 = .ok u) (n : Nat) :
    d.drain (n + 1) =
      match d.claim.2.report u.execute with
      | (.error err, d') => ([⟨u, u.execute.result, u.execute.error⟩], some err, d')
      | (.ok (), d') =>
        (⟨u, u.execute.result, u.execute.error⟩ :: (d'.drain n).1, (d'.drain n).2) := by
  rw [drain]
  generalize d.claim = called at hclaim ⊢
  obtain ⟨answer, d₁⟩ := called
  cases hclaim
  rfl

theorem drain_of_report_error {u : Task} {err : DispatchError} (hclaim : d.claim.1 = .ok u)
    (hreport : (d.claim.2.report u.execute).1 = .error err) (n : Nat) :
    (d.drain (n + 1)).2.1 = some err := by
  rw [drain_of_claim_ok hclaim]
  generalize d.claim.2.report u.execute = reported at hreport ⊢
  obtain ⟨answer, d₂⟩ := reported
  cases hreport
  rfl

theorem drain_of_ok {u : Task} (hclaim : d.claim.1 = .ok u)
    (hreport : (d.claim.2.report u.execute).1 = .ok ()) (n : Nat) :
    d.drain (n + 1) =
      (⟨u, u.execute.result, u.execute.error⟩ :: ((d.claim.2.report u.execute).2.drain n).1,
        ((d.claim.2.report u.execute).2.drain n).2) := by
  rw [drain_of_claim_ok hclaim]
  generalize d.claim.2.report u.execute = reported at hreport ⊢
  obtain ⟨answer, d₂⟩ := reported
  cases hreport
  rfl

/-- A drain that has been stopped goes no further with more fuel. -/
theorem drain_of_stopped {n m : Nat} {err : DispatchError} (h : (d.drain n).2.1 = some err)
    (hle : n ≤ m) : d.drain m = d.drain n := by
  induction n generalizing d m with
  | zero => cases h
  | succ n ih =>
    obtain ⟨k, rfl⟩ := Nat.exists_eq_add_of_le' hle
    rw [drain] at h
    rw [← Nat.add_assoc, drain, drain]
    generalize d.claim = called at h ⊢
    obtain ⟨answer, d₁⟩ := called
    cases answer with
    | error e => rfl
    | ok u =>
      simp only at h ⊢
      generalize d₁.report u.execute = reported at h ⊢
      obtain ⟨answer, d₂⟩ := reported
      cases answer with
      | error e => rfl
      | ok _ => simp only [ih h (Nat.le_add_left n k)]

/-- A drain that finds no more tasks was never refused a call. -/
theorem drain_unrefused {n : Nat} (h : (d.drain n).2.1 = some .noTaskAvailable) (m : Nat)
    (err : LedgerError) : (d.drain m).2.1 ≠ some (.ledger err) := by
  intro hm
  rcases Nat.le_total n m with hle | hle
  · rw [drain_of_stopped h hle, h] at hm
    cases hm
  · rw [drain_of_stopped hm hle, hm] at h
    cases h

/-! ## 2. One turn -/

variable [LawfulLedger σ]

/-- No task is out with a worker, and the live expressions follow the plans of their
rows. -/
structure Rests (d : Dispatcher σ) : Prop where
  charted : ∃ out, Charted d.board d.ledger out
  idle : d.board.Idle

theorem Rests.served (h : d.Rests) : d.board.Served := by
  obtain ⟨out, hcharted⟩ := h.charted
  exact hcharted.inStep.served

theorem Rests.coherent (h : d.Rests) : d.board.Coherent := h.served.reachable.coherent

/-- What a turn makes of the expression of its task, which had this row. -/
inductive Turn.Own (d : Dispatcher σ) (t : Task) (row : Expression) (d' : Dispatcher σ) : Prop
  | progressed {x : Number} (value : t.evaluate = .ok x)
      (tasks : d'.board.tasks.values = d.board.tasks.values.map (Board.carriedOut t.id x))
      (started : Ledger.get? t.expressionId d'.ledger = some row.started)
  | done {x : Number} (value : t.evaluate = .ok x)
      (last : ∀ u ∈ d.board.tasks.values, u.expressionId = t.expressionId →
        u.status = .pending → u.id = t.id)
      (gone : ∀ u ∈ d'.board.tasks.values, u.expressionId ≠ t.expressionId)
      (ended : Ledger.get? t.expressionId d'.ledger =
        some (row.endedWith (LawfulLedger.keep σ) (.done x)))
  | failed {err : EvalError} (fails : t.evaluate = .error err)
      (gone : ∀ u ∈ d'.board.tasks.values, u.expressionId ≠ t.expressionId)
      (ended : Ledger.get? t.expressionId d'.ledger =
        some (row.endedWith (LawfulLedger.keep σ) (.failed .zero err.message)))

/-- The next task has been handed out, carried out and reported on. -/
structure Turn (d : Dispatcher σ) (t : Task) (d' : Dispatcher σ) : Prop where
  next : d.board.peek? = some t
  rests : d'.Rests
  nextId : d'.board.nextId = d.board.nextId
  rows : ∀ e, e ≠ t.expressionId → Ledger.get? e d'.ledger = Ledger.get? e d.ledger
  tasks : ∀ u, u.expressionId ≠ t.expressionId →
    (u ∈ d'.board.tasks.values ↔ u ∈ d.board.tasks.values)
  own : ∃ row, Ledger.get? t.expressionId d.ledger = some row ∧ row.isFinished = false ∧
    Turn.Own d t row d'

/-- A report on the task that has just gone out is taken, and completes a turn. -/
theorem turn_of_report (h : d.Rests) (hpeek : d.board.peek? = some t) {row : Expression} {s : σ}
    {m : Metrics} {out : List Task} (hfound : Ledger.get? t.expressionId d.ledger = some row)
    (hopen : row.isFinished = false)
    (hsets : Ledger.Sets t.expressionId row.started d.ledger s)
    (hcharted : Charted (d.board.handOut t.id t) s out) {answer : Except DispatchError Unit}
    (hreports : Reports ⟨d.timings, d.board.handOut t.id t, m, s⟩ t.execute answer d')
    (hcalls : ∀ err, answer ≠ .error (.ledger err)) : answer = .ok () ∧ Turn d t d' := by
  have hcharted' := hreports.keeps (Charted.keptByChanges out) hcharted
  have hserved := h.served
  cases hreports with
  | rejected rejects =>
    obtain ⟨c, b, hcomplete⟩ := d.board.exists_complete_handOut t
    cases rejects.symm.trans hcomplete
  | progressed completes =>
    obtain ⟨u, -, -, hc⟩ := Board.completes_of_complete completes
    cases Board.carries_of_complete hserved hpeek completes with
    | @progressed x unblocked b value tasks =>
      refine ⟨rfl, hpeek, ⟨⟨out, hcharted'⟩, h.idle.map_carriedOut tasks⟩, hc.nextId_eq,
        fun e he => hsets.get?_of_ne he, fun u hu => ?_, row, hfound, hopen,
        .progressed value tasks hsets.get?_self⟩
      rw [show _ = _ from tasks]
      exact Board.mem_map_carriedOut hserved hpeek x hu
  | @ended e o b answer s' completes finishes =>
    obtain ⟨u, -, -, hc⟩ := Board.completes_of_complete completes
    have hvalues := Board.values_evict_handOut hserved hpeek completes
    cases finishes with
    | refused ignores => exact absurd rfl (hcalls _)
    | @recorded row' s' found sets =>
      have hcarries := Board.carries_of_complete hserved hpeek completes
      have he : e = t.expressionId := by
        cases hcarries <;> rfl
      subst he
      rw [hsets.get?_self] at found
      cases found
      have hended := sets.get?_self
      rw [Expression.endedWith_started hopen] at hended
      have hmem : ∀ v, v ∈ (b.evict t.expressionId).tasks.values ↔
          v ∈ d.board.tasks.values ∧ v.expressionId ≠ t.expressionId := by
        intro v
        rw [hvalues, List.mem_filter, bne_iff_ne]
      have hgone : ∀ v ∈ (b.evict t.expressionId).tasks.values,
          v.expressionId ≠ t.expressionId := fun v hv => ((hmem v).1 hv).2
      refine ⟨rfl, hpeek, ⟨⟨out, hcharted'⟩, fun v hv => h.idle v ((hmem v).1 hv).1⟩, hc.nextId_eq,
        fun e he => ?_, fun v hv => ?_, row, hfound, hopen, ?_⟩
      · rw [sets.get?_of_ne he, hsets.get?_of_ne he]
      · exact (hmem v).trans (and_iff_left hv)
      · cases hcarries with
        | done value last => exact .done value last hgone hended
        | failed fails => exact .failed fails hgone hended

/-- Where the ledger takes the calls, the next task has its turn. -/
theorem exists_turn (h : d.Rests) (hpeek : d.board.peek? = some t)
    (hclaim : ∀ err, d.claim.1 ≠ .error (.ledger err))
    (hreport : ∀ u err, d.claim.1 = .ok u →
      (d.claim.2.report u.execute).1 ≠ .error (.ledger err)) :
    d.claim.1 = .ok { t with status := .computing } ∧
      (d.claim.2.report t.execute).1 = .ok () ∧ Turn d t (d.claim.2.report t.execute).2 := by
  obtain ⟨out, hcharted⟩ := h.charted
  have hin := hcharted.inStep
  have hclaims := claims hin.valid hin.coherent
  have hstep := InStep.claim hin hclaims
  generalize d.claim = called at hclaim hreport hclaims hstep ⊢
  obtain ⟨answer, d₁⟩ := called
  have hcopy := hclaims
  cases hclaims with
  | idle nothing =>
    rw [hpeek] at nothing
    cases nothing
  | refused next ignores => exact absurd rfl (hclaim _)
  | @handedOut u row s next found sets =>
    rw [hpeek] at next
    cases next
    have hcharted₁ := hcharted.claim hcopy hstep
    have hopen := (hin.covers_of_peek? hpeek found).isOpen
    exact ⟨rfl, turn_of_report h hpeek found hopen sets hcharted₁
      (reports hcharted₁.inStep.valid t.execute) fun err =>
        hreport { t with status := .computing } err rfl⟩

namespace Turn

/-- A task that is pending after a turn was pending before, and is not the one that
had the turn. -/
theorem pending_before (h : Turn d t d') (hrests : d.Rests) {u : Task}
    (hu : u ∈ d'.board.tasks.values) (hs : u.status = .pending) :
    u.id ≠ t.id ∧ ∃ v ∈ d.board.tasks.values, v.status = .pending ∧ v.id = u.id ∧
      v.expressionId = u.expressionId := by
  have hget := Board.get?_of_peek? hrests.coherent h.next
  by_cases he : u.expressionId = t.expressionId
  · obtain ⟨row, -, -, hown⟩ := h.own
    cases hown with
    | done value last gone ended => exact absurd he (gone u hu)
    | failed fails gone ended => exact absurd he (gone u hu)
    | @progressed x value tasks started =>
      rw [tasks] at hu
      obtain ⟨v, hv, rfl⟩ := List.mem_map.1 hu
      rw [Board.id_carriedOut, Board.expressionId_carriedOut]
      have hid : v.id ≠ t.id := fun hid => by
        rw [(Board.doneWith_carriedOut t.id x hid).status] at hs
        cases hs
      rw [Board.status_carriedOut t.id x hid] at hs
      exact ⟨hid, v, hv, hs, rfl, rfl⟩
  · have hmem := (h.tasks u he).1 hu
    exact ⟨Board.id_ne_of_owner hrests.coherent hget hmem he, u, hmem, hs, rfl, rfl⟩

/-- The other pending tasks stay pending, unless their expression fails. -/
theorem pending_after (h : Turn d t d') {u : Task} (hu : u ∈ d.board.tasks.values)
    (hs : u.status = .pending) (hid : u.id ≠ t.id)
    (hfails : u.expressionId = t.expressionId → t.execute.error = none) :
    ∃ v ∈ d'.board.tasks.values, v.status = .pending ∧ v.id = u.id ∧
      v.expressionId = u.expressionId := by
  by_cases he : u.expressionId = t.expressionId
  · obtain ⟨row, -, -, hown⟩ := h.own
    cases hown with
    | @progressed x value tasks started =>
      refine ⟨Board.carriedOut t.id x u, ?_, ?_, Board.id_carriedOut t.id x u,
        Board.expressionId_carriedOut t.id x u⟩
      · rw [tasks]
        exact List.mem_map_of_mem hu
      · rw [Board.status_carriedOut t.id x hid, hs]
    | done value last gone ended => exact absurd (last u hu he hs) hid
    | failed fails gone ended =>
      have hnone := hfails he
      rw [Task.execute, fails] at hnone
      cases hnone
  · exact ⟨u, (h.tasks u he).2 hu, hs, rfl, rfl⟩

/-- An expression that fails is gone. -/
theorem gone_of_error (h : Turn d t d') (herror : t.execute.error ≠ none) {u : Task}
    (hu : u ∈ d'.board.tasks.values) : u.expressionId ≠ t.expressionId := by
  have hvalue : ∀ x, t.evaluate ≠ .ok x := fun x hx => by
    rw [Task.execute, hx] at herror
    exact herror rfl
  obtain ⟨row, -, -, hown⟩ := h.own
  cases hown with
  | progressed value tasks started => exact absurd value (hvalue _)
  | done value last gone ended => exact absurd value (hvalue _)
  | failed fails gone ended => exact gone u hu

theorem not_isLive_of_gone (h : Turn d t d')
    (gone : ∀ u ∈ d'.board.tasks.values, u.expressionId ≠ t.expressionId) :
    ¬d'.board.isLive t.expressionId = true := by
  rw [Board.isLive_iff_exists_mem h.rests.coherent]
  rintro ⟨u, hu, he⟩
  exact gone u hu he

/-- The task that has its turn is pending. -/
theorem pending (h : Turn d t d') (hrests : d.Rests) :
    t ∈ d.board.tasks.values ∧ t.status = .pending :=
  ⟨Board.mem_of_peek? hrests.coherent h.next, Board.status_of_peek? hrests.coherent h.next⟩

/-- Each turn leaves fewer pending tasks. -/
theorem countP_lt (h : Turn d t d') (hrests : d.Rests) :
    d'.board.tasks.values.countP Task.isPending < d.board.tasks.values.countP Task.isPending := by
  let ids (b : Board) : List Int := (b.tasks.values.filter Task.isPending).map (·.id)
  have hcount : ∀ b : Board, b.tasks.values.countP Task.isPending = (ids b).length := fun b => by
    rw [List.countP_eq_length_filter, List.length_map]
  have hmem : ∀ (b : Board) (id : Int), id ∈ ids b ↔
      ∃ u ∈ b.tasks.values, u.status = .pending ∧ u.id = id := fun b id => by
    simp only [ids, List.mem_map, List.mem_filter, Task.isPending_iff, and_assoc]
  have hnodup : ∀ b : Board, b.Coherent → (ids b).Nodup := fun b hb =>
    (Board.pairwise_id hb).imp Int.ne_of_lt |>.sublist (List.filter_sublist.map _)
  obtain ⟨ht, hs⟩ := h.pending hrests
  have hown : t.id ∈ ids d.board := (hmem d.board t.id).2 ⟨t, ht, hs, rfl⟩
  have hsub : ids d'.board ⊆ (ids d.board).erase t.id := fun id hid => by
    obtain ⟨u, hu, hus, rfl⟩ := (hmem d'.board id).1 hid
    obtain ⟨hne, v, hv, hvs, hvid, -⟩ := h.pending_before hrests hu hus
    exact ((hnodup d.board hrests.coherent).mem_erase_iff).2
      ⟨hne, (hmem d.board u.id).2 ⟨v, hv, hvs, hvid⟩⟩
  have hle := (List.subperm_of_subset (hnodup d'.board h.rests.coherent) hsub).length_le
  have hpos := List.length_pos_of_mem hown
  rw [List.length_erase_of_mem hown] at hle
  rw [hcount, hcount]
  omega

/-- No other expression goes or comes. -/
theorem isLive_iff (h : Turn d t d') (hrests : d.Rests) {e : Int} (he : e ≠ t.expressionId) :
    d'.board.isLive e = true ↔ d.board.isLive e = true := by
  rw [Board.isLive_iff_exists_mem h.rests.coherent, Board.isLive_iff_exists_mem hrests.coherent]
  constructor
  · rintro ⟨u, hu, rfl⟩
    exact ⟨u, (h.tasks u he).1 hu, rfl⟩
  · rintro ⟨u, hu, rfl⟩
    exact ⟨u, (h.tasks u he).2 hu, rfl⟩

end Turn

/-! ## 3. The turns of a drain -/

/-- What a drain reports about a task when its turn comes. -/
def Handled.ofTask (t : Task) : Handled :=
  ⟨{ t with status := .computing }, t.execute.result, t.execute.error⟩

/-- Turn after turn, until there is no task to hand out. -/
inductive Drains : Dispatcher σ → List Handled → Dispatcher σ → Prop
  | idle {d : Dispatcher σ} (rests : d.Rests) (nothing : d.board.peek? = none) : Drains d [] d
  | next {d d₁ d' : Dispatcher σ} {t : Task} {handled : List Handled} (rests : d.Rests)
      (turn : Turn d t d₁) (rest : Drains d₁ handled d') : Drains d (.ofTask t :: handled) d'

/-- Where the ledger takes the calls, a drain goes on until no task is left. -/
theorem exists_drains (h : d.Rests) (hcalls : ∀ n err, (d.drain n).2.1 ≠ some (.ledger err)) :
    ∃ handled d', Drains d handled d' ∧
      ∀ n, d.board.tasks.values.countP Task.isPending < n →
        d.drain n = (handled, some .noTaskAvailable, d') := by
  induction hm : d.board.tasks.values.countP Task.isPending using Nat.strong_induction_on
    generalizing d with
  | _ m ih =>
    subst hm
    cases hpeek : d.board.peek? with
    | none =>
      refine ⟨[], d, .idle h hpeek, fun n hn => ?_⟩
      obtain ⟨k, rfl⟩ := Nat.exists_eq_succ_of_ne_zero (Nat.ne_zero_of_lt hn)
      exact drain_of_peek?_none hpeek k
    | some t =>
      obtain ⟨hclaim, hreport, hturn⟩ := exists_turn h hpeek
        (fun err hclaim => hcalls 1 err (drain_of_claim_error hclaim 0))
        fun u err hclaim hreport => hcalls 1 err (drain_of_report_error hclaim hreport 0)
      have hdrain := drain_of_ok hclaim hreport
      obtain ⟨handled, d', hdrains, hends⟩ := ih _ (hturn.countP_lt h) hturn.rests
        (fun n err hstop => hcalls (n + 1) err ((congrArg (·.2.1) (hdrain n)).trans hstop)) rfl
      refine ⟨.ofTask t :: handled, d', .next h hturn hdrains, fun n hn => ?_⟩
      obtain ⟨k, rfl⟩ := Nat.exists_eq_succ_of_ne_zero (Nat.ne_zero_of_lt hn)
      have hlt := hturn.countP_lt h
      have hrest := hends k (by omega)
      rw [hdrain k]
      exact congrArg (fun rest : List Handled × Option DispatchError × Dispatcher σ =>
        (Handled.ofTask t :: rest.1, rest.2)) hrest

namespace Drains

variable {handled : List Handled}

theorem rests (h : Drains d handled d') : d.Rests := by
  cases h with
  | idle rests nothing => exact rests
  | next rests turn rest => exact rests

/-- Nothing is left on the board, and the ids go on where they were. -/
theorem board_eq (h : Drains d handled d') :
    d'.board = { Board.empty with nextId := d.board.nextId } := by
  induction h with
  | idle rests nothing => exact rests.idle.eq_empty rests.served nothing
  | next rests turn rest ih => rw [ih, turn.nextId]

/-! ## 4. Which tasks are handled -/

/-- A task that is handled was pending. -/
theorem pending_of_mem (h : Drains d handled d') {x : Handled} (hx : x ∈ handled) :
    ∃ u ∈ d.board.tasks.values, u.status = .pending ∧ u.id = x.task.id ∧
      u.expressionId = x.task.expressionId := by
  induction h with
  | idle rests nothing => cases hx
  | @next d d₁ d' t handled rests turn rest ih =>
    rcases List.mem_cons.1 hx with rfl | hx
    · obtain ⟨ht, hs⟩ := turn.pending rests
      exact ⟨t, ht, hs, rfl, rfl⟩
    · obtain ⟨u, hu, hs, hid, he⟩ := ih hx
      obtain ⟨-, v, hv, hvs, hvid, hve⟩ := turn.pending_before rests hu hs
      exact ⟨v, hv, hvs, hvid.trans hid, hve.trans he⟩

/-- What is reported on a task is what carrying it out comes to. -/
theorem execute_of_mem (h : Drains d handled d') {x : Handled} (hx : x ∈ handled) :
    (⟨x.task.id, x.result, x.error⟩ : Report) = x.task.execute := by
  induction h with
  | idle rests nothing => cases hx
  | @next d d₁ d' t handled rests turn rest ih =>
    rcases List.mem_cons.1 hx with rfl | hx
    · exact congrArg (fun id => (⟨id, t.execute.result, t.execute.error⟩ : Report))
        t.id_execute.symm
    · exact ih hx

/-- The tasks that come after a turn have a higher id. -/
theorem lt_of_mem {d₁ : Dispatcher σ} (hrests : d.Rests) (hturn : Turn d t d₁)
    (h : Drains d₁ handled d') {x : Handled} (hx : x ∈ handled) : t.id < x.task.id := by
  obtain ⟨u, hu, hs, hid, -⟩ := h.pending_of_mem hx
  obtain ⟨hne, v, hv, hvs, hvid, -⟩ := hturn.pending_before hrests hu hs
  have hle := hrests.idle.id_le_of_peek? hrests.served hturn.next hv hvs
  omega

theorem pairwise_id (h : Drains d handled d') :
    handled.Pairwise fun x y => x.task.id < y.task.id := by
  induction h with
  | idle rests nothing => exact .nil
  | next rests turn rest ih => exact .cons (fun x hx => rest.lt_of_mem rests turn hx) ih

/-- A pending task is handled unless a task of its expression with a lower id fails. -/
theorem exists_mem_iff (h : Drains d handled d') {u : Task} (hu : u ∈ d.board.tasks.values)
    (hs : u.status = .pending) :
    (∃ x ∈ handled, x.task.id = u.id) ↔
      ¬∃ x ∈ handled, x.task.expressionId = u.expressionId ∧ x.task.id < u.id ∧
        x.error ≠ none := by
  induction h generalizing u with
  | @idle d rests nothing =>
    rw [rests.idle.eq_empty rests.served nothing] at hu
    cases hu
  | @next d d₁ d' t handled rests turn rest ih =>
    have hcoherent := rests.coherent
    by_cases hid : u.id = t.id
    · -- It is the task whose turn it is, and all that follow have a higher id.
      refine iff_of_true ⟨_, List.mem_cons_self, hid.symm⟩ ?_
      rintro ⟨x, hx, -, hlt, -⟩
      rcases List.mem_cons.1 hx with rfl | hx
      · exact absurd (hlt.trans_eq hid) (Int.lt_irrefl _)
      · exact absurd (hlt.trans_eq hid) (Int.not_lt.2 (rest.lt_of_mem rests turn hx).le)
    · have hlt : t.id < u.id := by
        have hle := rests.idle.id_le_of_peek? rests.served turn.next hu hs
        omega
      by_cases hfails : u.expressionId = t.expressionId ∧ t.execute.error ≠ none
      · -- Its expression fails in this turn.
        refine iff_of_false ?_ (not_not.2 ⟨_, List.mem_cons_self, hfails.1.symm, hlt, hfails.2⟩)
        rintro ⟨x, hx, hxid⟩
        rcases List.mem_cons.1 hx with rfl | hx
        · exact hid hxid.symm
        · obtain ⟨v, hv, hvs, hvid, -⟩ := rest.pending_of_mem hx
          obtain ⟨-, w, hw, -, hwid, hwe⟩ := turn.pending_before rests hv hvs
          have hsame : w = u := Board.eq_of_mem hcoherent hu hw ((hwid.trans hvid).trans hxid)
          subst hsame
          exact turn.gone_of_error hfails.2 hv (hwe.symm.trans hfails.1)
      · rw [not_and, not_not] at hfails
        obtain ⟨v, hv, hvs, hvid, hve⟩ := turn.pending_after hu hs hid hfails
        have hrest := ih hv hvs
        rw [hvid, hve] at hrest
        have hother : ¬(Handled.ofTask t).task.id = u.id := fun hhead => hid hhead.symm
        have hfine : ¬((Handled.ofTask t).task.expressionId = u.expressionId ∧
            (Handled.ofTask t).task.id < u.id ∧ (Handled.ofTask t).error ≠ none) :=
          fun hhead => hhead.2.2 (hfails hhead.1.symm)
        simp only [List.mem_cons, exists_eq_or_imp]
        rw [or_iff_right hother, or_iff_right hfine]
        exact hrest

/-! ## 5. Every expression ends -/

/-- The rows of the expressions that are not live stay as they were. -/
theorem get?_of_not_live (h : Drains d handled d') {e : Int} (he : ¬d.board.isLive e = true) :
    Ledger.get? e d'.ledger = Ledger.get? e d.ledger := by
  induction h with
  | idle rests nothing => rfl
  | @next d d₁ d' t handled rests turn rest ih =>
    have hne : e ≠ t.expressionId := by
      rintro rfl
      exact he (rests.coherent.isLive_of_get? (Board.get?_of_peek? rests.coherent turn.next))
    rw [ih fun hlive => he ((turn.isLive_iff rests hne).1 hlive), turn.rows e hne]

/-- A live expression has ended after the drain. -/
theorem exists_finished (h : Drains d handled d') {e : Int} (he : d.board.isLive e = true) :
    ∃ row, Ledger.get? e d'.ledger = some row ∧ row.isFinished = true := by
  induction h with
  | @idle d rests nothing =>
    rw [rests.idle.eq_empty rests.served nothing] at he
    cases he
  | @next d d₁ d' t handled rests turn rest ih =>
    by_cases hid : e = t.expressionId
    · subst hid
      obtain ⟨row, -, -, hown⟩ := turn.own
      cases hown with
      | @progressed x value tasks started =>
        refine ih ((Board.isLive_iff_exists_mem turn.rests.coherent _).2
          ⟨Board.carriedOut t.id x t, ?_, Board.expressionId_carriedOut t.id x t⟩)
        rw [tasks]
        exact List.mem_map_of_mem (turn.pending rests).1
      | done value last gone ended =>
        refine ⟨_, (rest.get?_of_not_live ?_).trans ended, Expression.isFinished_endedWith _ _ _⟩
        exact turn.not_isLive_of_gone gone
      | failed fails gone ended =>
        refine ⟨_, (rest.get?_of_not_live ?_).trans ended, Expression.isFinished_endedWith _ _ _⟩
        exact turn.not_isLive_of_gone gone
    · exact ih ((turn.isLive_iff rests hid).2 he)

end Drains

/-! ## 6. Expressions worked out from the beginning -/

/-- The nodes of an expression have been worked out in their order, as far as these
values go. The tasks of the others are pending. -/
structure UpTo (e : Int) (row : Expression) (tree : Tree) (first : Int) (known : List Number)
    (d : Dispatcher σ) : Prop where
  recorded : ∃ now, Ledger.get? e d.ledger = some now ∧ ∀ o,
    now.endedWith (LawfulLedger.keep σ) o = row.endedWith (LawfulLedger.keep σ) o
  follows : Follows e tree.plan first d.board.tasks.values
  values : Plan.valuesOf [] (tree.plan.nodes.take known.length) = .ok known
  done : ∀ (i : Nat) (x : Number), known[i]? = some x →
    ∃ t ∈ d.board.tasks.values, t.expressionId = e ∧ t.id = first + i ∧ t.DoneWith x
  pending : ∀ t ∈ d.board.tasks.values, t.expressionId = e → first + known.length ≤ t.id →
    t.status = .pending

namespace UpTo

variable {e first : Int} {row : Expression} {tree : Tree} {known : List Number}

theorem start (hrow : OpenRow d.ledger e row tree)
    (hfollows : Follows e tree.plan first d.board.tasks.values)
    (hpending : ∀ t ∈ d.board.tasks.values, t.expressionId = e → t.status = .pending) :
    UpTo e row tree first [] d where
  recorded := ⟨row, hrow.recorded, fun _ => rfl⟩
  follows := hfollows
  values := rfl
  done _ _ h := nomatch h
  pending t ht he _ := hpending t ht he

/-- The tasks of the nodes that have a value are done. -/
theorem exists_doneWith (h : UpTo e row tree first known d) (hcoherent : d.board.Coherent)
    {u : Task} (hu : u ∈ d.board.tasks.values) {j : Nat} (hid : u.id = first + j)
    (hj : j < known.length) : u.DoneWith known[j] := by
  obtain ⟨v, hv, -, hvid, hx⟩ := h.done j known[j] (List.getElem?_eq_getElem hj)
  rwa [Board.eq_of_mem hcoherent hu hv (hvid.trans hid.symm)] at hx

/-- The next task of the expression is that of the first node without a value. -/
theorem id_of_next (h : UpTo e row tree first known d) (hrests : d.Rests)
    (hpeek : d.board.peek? = some t) (he : t.expressionId = e) :
    t.id = first + known.length := by
  have hcoherent := hrests.coherent
  have ht := Board.mem_of_peek? hcoherent hpeek
  have hs := Board.status_of_peek? hcoherent hpeek
  obtain ⟨i, hi, hid⟩ := h.follows.mem_id ht he
  have hle : known.length ≤ i := by
    by_contra hlt
    have hdone := h.exists_doneWith hcoherent ht hid (by omega)
    rw [hdone.status] at hs
    cases hs
  obtain ⟨u, hu, hue, huid⟩ := h.follows.exists_task known.length (by omega)
  have hfirst := hrests.idle.id_le_of_peek? hrests.served hpeek hu
    (h.pending u hu hue (by omega))
  omega

/-- What that task is worth is the value of the node. -/
theorem value_of_next (h : UpTo e row tree first known d) (hrests : d.Rests)
    (hpeek : d.board.peek? = some t) (he : t.expressionId = e) :
    ∃ n, tree.plan.nodes[known.length]? = some n ∧ n.value known = t.evaluate := by
  have hcoherent := hrests.coherent
  have hnext := h.id_of_next hrests hpeek he
  obtain ⟨i, n, hid, hn, hop, hsides⟩ := h.follows.at_node_of_peek? hcoherent hpeek he
  have hi : i = known.length := by omega
  subst hi
  have hgiven : ∀ side, t.operand side = (n.source side).given known := by
    intro side
    have hside := hsides side
    cases hsource : n.source side with
    | literal text =>
      rw [hsource] at hside
      exact hside
    | node j =>
      rw [hsource] at hside
      obtain ⟨u, hu, hue, huid, x, hx, hresolved⟩ := hside
      have hj : j < known.length := by
        by_contra hge
        have hs := h.pending u hu hue (by omega)
        rw [hx.status] at hs
        cases hs
      have hdone := h.exists_doneWith hcoherent hu huid hj
      have hvalue : known[j] = x := Option.some.inj (hdone.result.symm.trans hx.result)
      rw [hresolved, Plan.Source.given, List.getElem?_eq_getElem hj, hvalue]
  refine ⟨n, hn, ?_⟩
  rw [Plan.Node.value, Task.evaluate, hop]
  exact congrArg₂ (evaluateOperands · n.operator ·) (hgiven .left).symm (hgiven .right).symm

/-- The turn of another expression changes nothing. -/
theorem frame (h : UpTo e row tree first known d) (hturn : Turn d t d')
    (he : e ≠ t.expressionId) : UpTo e row tree first known d' where
  recorded := by
    rw [hturn.rows e he]
    exact h.recorded
  follows := h.follows.congr fun u hu => hturn.tasks u (hu.trans_ne he)
  values := h.values
  done i x hx := by
    obtain ⟨u, hu, hue, hdone⟩ := h.done i x hx
    exact ⟨u, (hturn.tasks u (hue.trans_ne he)).2 hu, hue, hdone⟩
  pending u hu hue := h.pending u ((hturn.tasks u (hue.trans_ne he)).1 hu) hue

/-- A turn of its own adds a value to those that are known. -/
theorem progressed (h : UpTo e row tree first known d) (hrests : d.Rests)
    (hpeek : d.board.peek? = some t) (he : t.expressionId = e) {x : Number}
    (hvalue : t.evaluate = .ok x)
    (htasks : d'.board.tasks.values = d.board.tasks.values.map (Board.carriedOut t.id x))
    {now : Expression} (hrow : Ledger.get? e d.ledger = some now) (hopen : now.isFinished = false)
    (hstarted : Ledger.get? e d'.ledger = some now.started) :
    UpTo e row tree first (known ++ [x]) d' := by
  have hcoherent := hrests.coherent
  have ht := Board.mem_of_peek? hcoherent hpeek
  have hs := Board.status_of_peek? hcoherent hpeek
  have hnext := h.id_of_next hrests hpeek he
  obtain ⟨n, hn, hnvalue⟩ := h.value_of_next hrests hpeek he
  have hown := Board.doneWith_carriedOut t.id x rfl (u := t)
  refine ⟨?_, ?_, ?_, fun i y hy => ?_, ?_⟩
  · obtain ⟨old, hold, hends⟩ := h.recorded
    rw [hrow] at hold
    cases hold
    exact ⟨now.started, hstarted, fun o => (Expression.endedWith_started hopen o).trans (hends o)⟩
  · rw [htasks]
    refine h.follows.carriedOut ht he (fun u hu hid => ?_) x
    rw [Board.eq_of_mem hcoherent ht hu hid, hs]
  · rw [List.length_append, List.length_singleton, List.take_add_one, hn, Option.toList_some,
      Plan.valuesOf_append h.values, Plan.valuesOf, hnvalue, hvalue]
    rfl
  · rw [htasks]
    by_cases hi : i < known.length
    · rw [List.getElem?_append_left hi] at hy
      obtain ⟨u, hu, hue, hid, hdone⟩ := h.done i y hy
      have hne : u.id ≠ t.id := by omega
      exact ⟨_, List.mem_map_of_mem hu, (Board.expressionId_carriedOut t.id x u).trans hue,
        (Board.id_carriedOut t.id x u).trans hid, hdone.carriedOut hne x⟩
    · rw [List.getElem?_append_right (Nat.not_lt.1 hi)] at hy
      obtain ⟨hi', rfl⟩ := List.getElem?_eq_some_iff.1 hy
      rw [List.length_singleton] at hi'
      refine ⟨_, List.mem_map_of_mem ht, (Board.expressionId_carriedOut t.id x t).trans he, ?_, ?_⟩
      · rw [Board.id_carriedOut, hnext]
        omega
      · rw [List.getElem_singleton]
        exact hown
  · rw [htasks, List.length_append, List.length_singleton]
    refine List.forall_mem_map.2 fun u hu hue hid => ?_
    rw [Board.expressionId_carriedOut] at hue
    rw [Board.id_carriedOut] at hid
    rw [Board.status_carriedOut t.id x (by omega)]
    exact h.pending u hu hue (by omega)

/-- A turn of its own ends it with what its plan comes to, or adds a value to those
that are known. -/
theorem own (h : UpTo e row tree first known d) (hrests : d.Rests) (hturn : Turn d t d')
    (he : t.expressionId = e) : (∃ x, UpTo e row tree first (known ++ [x]) d') ∨
      ∃ o, tree.plan.ComesTo o ∧ ¬d'.board.isLive e = true ∧
        Ledger.get? e d'.ledger = some (row.endedWith (LawfulLedger.keep σ) o) := by
  subst he
  obtain ⟨n, hn, hnvalue⟩ := h.value_of_next hrests hturn.next rfl
  have hsplit : tree.plan.nodes = tree.plan.nodes.take known.length ++
      n :: tree.plan.nodes.drop (known.length + 1) := by
    obtain ⟨hlt, rfl⟩ := List.getElem?_eq_some_iff.1 hn
    rw [List.getElem_cons_drop, List.take_append_drop]
  obtain ⟨old, hold, hends⟩ := h.recorded
  obtain ⟨now, hnow, hopen, hown⟩ := hturn.own
  rw [hold] at hnow
  cases hnow
  cases hown with
  | @progressed x value tasks started =>
    exact .inl ⟨x, h.progressed hrests hturn.next rfl value tasks hold hopen started⟩
  | @done x value last gone ended =>
    refine .inr ⟨.done x, ?_, hturn.not_isLive_of_gone gone, by rw [ended, hends]⟩
    -- Behind the last pending task there is no node.
    have hend : tree.plan.nodes.drop (known.length + 1) = [] := by
      rw [List.drop_eq_nil_iff]
      by_contra hmore
      obtain ⟨u, hu, hue, huid⟩ := h.follows.exists_task (known.length + 1) (Nat.lt_of_not_le hmore)
      have hnext := h.id_of_next hrests hturn.next rfl
      have hsame := last u hu hue (h.pending u hu hue (by omega))
      omega
    have hvalues : Plan.valuesOf [] tree.plan.nodes = .ok (known ++ [x]) := by
      rw [hsplit, hend, Plan.valuesOf_append h.values, Plan.valuesOf, hnvalue, value]
      rfl
    exact .done hvalues
  | @failed err fails gone ended =>
    exact .inr ⟨_, .failed hsplit h.values (hnvalue.trans fails), hturn.not_isLive_of_gone gone,
      by rw [ended, hends]⟩

end UpTo

/-- By the end of the drain the expression has ended with what its plan comes to. -/
theorem Drains.comesTo {handled : List Handled} (h : Drains d handled d') {e first : Int}
    {row : Expression} {tree : Tree} {known : List Number}
    (hup : UpTo e row tree first known d) (hsize : 0 < tree.plan.size) :
    ∃ o, tree.plan.ComesTo o ∧
      Ledger.get? e d'.ledger = some (row.endedWith (LawfulLedger.keep σ) o) := by
  induction h generalizing known with
  | @idle d rests nothing =>
    obtain ⟨u, hu, -⟩ := hup.follows.exists_task 0 hsize
    rw [rests.idle.eq_empty rests.served nothing] at hu
    cases hu
  | @next d d₁ d' t handled rests turn rest ih =>
    by_cases he : e = t.expressionId
    · rcases hup.own rests turn he.symm with ⟨x, hup⟩ | ⟨o, hcomes, hgone, hrow⟩
      · exact ih hup
      · exact ⟨o, hcomes, (rest.get?_of_not_live hgone).trans hrow⟩
    · exact ih (hup.frame turn he)

end Dispatcher

/-! ## 7. Every drain -/

namespace Session

open Dispatcher (Handled)

variable [LawfulLedger σ] {before : σ} {timings : Timings}

/-- Wherever a run has come to, a drain with no task out with a worker goes on until
there is no task to hand out, provided that the ledger takes its calls. Then the board
is empty and every expression has ended. The tasks are handled in the order of their
ids, and those are left out of whose expression an earlier one fails. An expression
that had not been begun ends with what its plan comes to. -/
theorem drain_ends_all_in_order (hvalid : LawfulLedger.Valid before) (es : List Event)
    (hidle : ∀ t ∈ ((start timings before).run es).dispatcher.board.tasks.values,
      t.status ≠ .computing)
    (hcalls : ∀ n err, (((start timings before).run es).dispatcher.drain n).2.1 ≠
      some (.ledger err)) :
    let d := ((start timings before).run es).dispatcher
    ∃ (handled : List Handled) (d' : Dispatcher σ),
      (∀ n, d.board.tasks.values.countP Task.isPending < n →
        d.drain n = (handled, some .noTaskAvailable, d')) ∧
      d'.board = { Board.empty with nextId := d.board.nextId } ∧
      handled.Pairwise (fun x y => x.task.id < y.task.id) ∧
      (∀ x ∈ handled, (⟨x.task.id, x.result, x.error⟩ : Report) = x.task.execute ∧
        ∃ t ∈ d.board.tasks.values, t.status = .pending ∧ t.id = x.task.id ∧
          t.expressionId = x.task.expressionId) ∧
      (∀ t ∈ d.board.tasks.values, t.status = .pending →
        ((∃ x ∈ handled, x.task.id = t.id) ↔
          ¬∃ x ∈ handled, x.task.expressionId = t.expressionId ∧ x.task.id < t.id ∧
            x.error ≠ none)) ∧
      (∀ e, d.board.isLive e = true →
        ∃ row, Ledger.get? e d'.ledger = some row ∧ row.isFinished = true) ∧
      ∀ e row plan, d.board.isLive e = true → (∀ t ∈ d.board.tasksOf e, t.status = .pending) →
        Ledger.get? e d.ledger = some row → Plan.ofFormula row.text = .ok plan →
        ∃ o, plan.ComesTo o ∧
          Ledger.get? e d'.ledger = some (row.endedWith (LawfulLedger.keep σ) o) := by
  intro d
  have hcharted : ((start timings before).run es).IsCharted :=
    isCharted_run (isCharted_start hvalid) es
  have hrests : d.Rests := ⟨⟨_, hcharted⟩, hidle⟩
  obtain ⟨handled, d', hdrains, hends⟩ := Dispatcher.exists_drains hrests hcalls
  refine ⟨handled, d', hends, hdrains.board_eq, hdrains.pairwise_id,
    fun x hx => ⟨hdrains.execute_of_mem hx, hdrains.pending_of_mem hx⟩,
    fun t ht hs => hdrains.exists_mem_iff ht hs, fun e he => hdrains.exists_finished he, ?_⟩
  intro e row plan hlive hpending hrow hplan
  obtain ⟨row', tree, first, hopen, hfollows⟩ := hcharted.followed e hlive
  have hsame := hopen.recorded
  rw [hrow] at hsame
  cases hsame
  have htree := hopen.plan
  rw [hplan] at htree
  cases htree
  have hall : ∀ t ∈ d.board.tasks.values, t.expressionId = e → t.status = .pending :=
    fun t ht he => hpending t (List.mem_filter.2 ⟨ht, beq_iff_eq.2 he⟩)
  obtain ⟨t, ht, he⟩ := (Board.isLive_iff_exists_mem hrests.coherent e).1 hlive
  obtain ⟨i, hi, -⟩ := hfollows.mem_id ht he
  exact hdrains.comesTo (.start hopen hfollows hall) (Nat.zero_lt_of_lt hi)

/-- One task has been reported on, and its value goes into the next. The division
fails, and two tasks with it. -/
theorem drain_ends_all_in_order_failing :
    let events : List Event := [.request (.submit "1+2*3" 1), .request .claim,
      .request (.report (.success 1 (.ofInt 7))), .request (.submit "4/0+5*6" 2),
      .request (.submit "2*(3+4)-1" 1)]
    let d := ((start {} ({} : MemoryLedger)).run events).dispatcher
    d.board.tasks.values.countP Task.isPending = 7 ∧
      ∃ (handled : List Handled) (d' : Dispatcher MemoryLedger),
      (∀ n, 7 < n → d.drain n = (handled, some .noTaskAvailable, d')) ∧
      handled.map (·.task.id) = [2, 3, 6, 7, 8] ∧
      d'.board = { Board.empty with nextId := 9 } ∧
      ∀ e ∈ [1, 2, 3], ∃ row, Ledger.get? e d'.ledger = some row ∧ row.isFinished = true := by
  intro events d
  have hempty : LawfulLedger.Valid ({} : MemoryLedger) := fun _ _ h => nomatch h
  have hpending : d.board.tasks.values.countP Task.isPending = 7 := by decide +kernel
  have hids : (d.drain 8).1.map (·.task.id) = [2, 3, 6, 7, 8] := by decide +kernel
  have hlive : ∀ e ∈ [1, 2, 3], d.board.isLive e = true := by decide +kernel
  have hnext : d.board.nextId = 9 := by decide +kernel
  have hidle : ∀ t ∈ d.board.tasks.values, t.status ≠ .computing := by decide +kernel
  have hstops : (d.drain 8).2.1 = some .noTaskAvailable := by decide +kernel
  have hd : d = ((start {} ({} : MemoryLedger)).run events).dispatcher := rfl
  have hall := @drain_ends_all_in_order _ _ _ ({} : MemoryLedger) {} hempty events
  rw [← hd] at hall
  obtain ⟨handled, d', hends, hboard, -, -, -, hfinished, -⟩ :=
    hall hidle (Dispatcher.drain_unrefused hstops)
  rw [hnext] at hboard
  refine ⟨hpending, handled, d', fun n hn => hends n (hpending.trans_lt hn), ?_, hboard,
    fun e he => hfinished e (hlive e he)⟩
  have hdrain := hends 8 (hpending.trans_lt (by decide))
  rw [← hids]
  exact congrArg (fun run => run.1.map (·.task.id)) hdrain.symm

end Session

end Reckoner
