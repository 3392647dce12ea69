/-
Reckoner.Proofs.Dispatcher.Refusal — a refusal leaves the dispatcher as it was.

A text that is no formula and a report that the board does not take leave the
whole dispatcher as it is. A call that the ledger refuses may leave its mark on
the ledger itself, so there the board, the counts and every row stay
(`Unchanged`). The task at the head then waits for the first claim whose call is
taken, however many are refused before it (`Offers`).

Each refusal has one reason, and is given exactly where that holds
(`refusals_change_nothing`).

  1. Reports that the board refuses
  2. Asking again
  3. Requests that are refused
  4. Claims that the ledger refuses
  5. Every refusal
-/
import Reckoner.Proofs.Dispatcher.Run

namespace Reckoner

/-! ## 1. Reports that the board refuses -/

namespace Board

variable {b : Board} {r : Report}

/-- A report is on no task exactly if the board has none of its id. -/
theorem complete_eq_taskNotFound_iff (h : b.Coherent) (id : Int) :
    b.complete r = .error (.taskNotFound id) ↔
      id = r.id ∧ ∀ t ∈ b.tasks.values, t.id ≠ r.id := by
  constructor
  · intro hcomplete
    rcases refuses_of_complete hcomplete with ⟨hnone, herr⟩ | ⟨u, -, -, herr⟩
    · cases herr
      refine ⟨rfl, fun t ht hid => ?_⟩
      rw [mem_tasks_iff h, hid, hnone] at ht
      cases ht
    · cases herr
  · rintro ⟨rfl, habsent⟩
    have hnone : b.get? r.id = none := by
      rw [Option.eq_none_iff_forall_ne_some]
      exact fun t ht => habsent t (mem_tasks_of_get? h ht) (h.id_eq r.id t ht)
    rw [complete_eq, hnone]

/-- A report is on a task that is not out exactly if the board has that task. -/
theorem complete_eq_taskNotClaimed_iff (h : b.Coherent) (id : Int) (status : Status) :
    b.complete r = .error (.taskNotClaimed id status) ↔
      id = r.id ∧ status ≠ .computing ∧
        ∃ t ∈ b.tasks.values, t.id = r.id ∧ t.status = status := by
  constructor
  · intro hcomplete
    rcases refuses_of_complete hcomplete with ⟨-, herr⟩ | ⟨t, ht, hstatus, herr⟩
    · cases herr
    · cases herr
      have hid := h.id_eq r.id t ht
      exact ⟨hid, hstatus, t, mem_tasks_of_get? h ht, hid, rfl⟩
  · rintro ⟨rfl, hstatus, t, ht, hid, rfl⟩
    rw [mem_tasks_iff h, hid] at ht
    rw [complete_eq, ht, ← hid]
    exact if_pos hstatus

end Board

variable {σ : Type} [Ledger σ]

namespace Dispatcher

/-! ## 2. Asking again -/

/-- Whatever can be seen of the dispatcher is as before. -/
structure Unchanged (d d' : Dispatcher σ) : Prop where
  timings : d'.timings = d.timings
  board : d'.board = d.board
  metrics : d'.metrics = d.metrics
  rows : Ledger.SameRows d.ledger d'.ledger

variable {d d' d'' : Dispatcher σ}

theorem Unchanged.refl (d : Dispatcher σ) : Unchanged d d := ⟨rfl, rfl, rfl, fun _ => rfl⟩

theorem Unchanged.trans (h : Unchanged d d') (h' : Unchanged d' d'') : Unchanged d d'' where
  timings := h'.timings.trans h.timings
  board := h'.board.trans h.board
  metrics := h'.metrics.trans h.metrics
  rows id := (h'.rows id).trans (h.rows id)

/-- The dispatcher after it has been asked the same some times, whatever the answers. -/
def afterTries {α : Type} (d : Dispatcher σ)
    (ask : Dispatcher σ → Except DispatchError α × Dispatcher σ) : Nat → Dispatcher σ
  | 0 => d
  | n + 1 => (ask (d.afterTries ask n)).2

/-- The ledger has refused a call each time that the dispatcher was asked. -/
def RefusesTries {α : Type} (d : Dispatcher σ)
    (ask : Dispatcher σ → Except DispatchError α × Dispatcher σ) (n : Nat) : Prop :=
  ∀ k < n, ∃ err, (ask (d.afterTries ask k)).1 = .error (.ledger err)

/-! ## 3. Requests that are refused -/

theorem submit_of_error {text : String} {err : FormulaError}
    (h : Plan.ofFormula text = .error err) (owner : Int) :
    d.submit text owner = (.error (.formula err), d) := by
  rw [submit, h]

variable [LawfulLedger σ]

/-- The board refuses a report in its own words, and then it alone has been asked. -/
theorem report_eq_board_error_iff (hvalid : LawfulLedger.Valid d.ledger) (r : Report)
    (err : BoardError) :
    (d.report r).1 = .error (.board err) ↔ d.board.complete r = .error err := by
  constructor
  · intro hanswer
    have hreports := reports hvalid r
    rw [hanswer] at hreports
    exact hreports.rejects.1
  · intro hcomplete
    rw [report, hcomplete]

theorem report_of_board_error (hvalid : LawfulLedger.Valid d.ledger) {r : Report}
    {err : BoardError} (h : (d.report r).1 = .error (.board err)) : (d.report r).2 = d := by
  rw [report_eq_board_error_iff hvalid] at h
  rw [report, h]

/-- A recovery whose rows are not listed does nothing. -/
theorem recover_of_unlisted (hvalid : LawfulLedger.Valid d.ledger) {err : LedgerError}
    (h : (Ledger.unfinished d.ledger).1 = .error err) :
    d.recover.1 = .error (.ledger err) ∧ Unchanged d d.recover.2 := by
  cases hcall : Ledger.unfinished d.ledger with
  | mk answer s =>
    rw [hcall] at h
    cases h
    obtain ⟨-, hsame⟩ := LawfulLedger.unfinished_error hvalid hcall
    rw [recover, hcall]
    exact ⟨rfl, rfl, rfl, rfl, hsame⟩

/-! ## 4. Claims that the ledger refuses -/

/-- No task is runnable exactly if a claim finds none. -/
theorem claim_eq_noTaskAvailable_iff (hvalid : LawfulLedger.Valid d.ledger)
    (hb : d.board.Coherent) :
    d.claim.1 = .error .noTaskAvailable ↔
      ∀ t ∈ d.board.tasks.values, t.isRunnable = false := by
  have hhead : d.board.peek? = none ↔ ∀ t ∈ d.board.tasks.values, t.isRunnable = false := by
    rw [Board.peek?_eq_find? hb, List.find?_eq_none]
    simp only [Bool.not_eq_true]
  rw [← hhead]
  constructor
  · intro hanswer
    have hclaims := claims hvalid hb
    rw [hanswer] at hclaims
    exact hclaims.nothing
  · intro hnone
    rw [claim, hnone]

theorem claim_of_noTaskAvailable (hvalid : LawfulLedger.Valid d.ledger) (hb : d.board.Coherent)
    (h : d.claim.1 = .error .noTaskAvailable) : d.claim.2 = d := by
  have hclaims := claims hvalid hb
  rw [h] at hclaims
  rw [claim, hclaims.nothing]

/-- The ledger refuses a claim for the task at the head, which stays there. -/
theorem claim_of_ledger_error (hvalid : LawfulLedger.Valid d.ledger) (hb : d.board.Coherent)
    {err : LedgerError} (h : d.claim.1 = .error (.ledger err)) :
    (∃ t, d.board.peek? = some t) ∧ Unchanged d d.claim.2 ∧
      LawfulLedger.Valid d.claim.2.ledger := by
  have hclaims := claims hvalid hb
  rw [h] at hclaims
  generalize hanswer : Except.error (DispatchError.ledger err) = answer at hclaims
  generalize d.claim.2 = after at hclaims
  cases hclaims with
  | idle nothing => cases hanswer
  | refused next ignores =>
    exact ⟨⟨_, next⟩, ⟨rfl, rfl, rfl, ignores.same⟩, ignores.valid⟩
  | handedOut next found sets => cases hanswer

theorem unchanged_afterTries_claim (hvalid : LawfulLedger.Valid d.ledger)
    (hb : d.board.Coherent) {n : Nat} (h : d.RefusesTries claim n) :
    Unchanged d (d.afterTries claim n) ∧ LawfulLedger.Valid (d.afterTries claim n).ledger := by
  induction n with
  | zero => exact ⟨.refl d, hvalid⟩
  | succ n ih =>
    obtain ⟨hbefore, hvalid'⟩ := ih fun k hk => h k (Nat.lt_succ_of_lt hk)
    obtain ⟨err, herr⟩ := h n (Nat.lt_succ_self n)
    have hb' : (d.afterTries claim n).board.Coherent := by rwa [hbefore.board]
    obtain ⟨-, hlast, hvalid''⟩ := claim_of_ledger_error hvalid' hb' herr
    exact ⟨hbefore.trans hlast, hvalid''⟩

omit [LawfulLedger σ] in
/-- This task goes out with the first claim whose call is taken. -/
structure Offers (d : Dispatcher σ) (t : Task) : Prop where
  /-- It goes out now, over any ledger that takes the call. -/
  now : ∀ s : σ, (Ledger.start t.expressionId s).1 = .ok () →
    ({ d with ledger := s } : Dispatcher σ).claim.1 = .ok { t with status := .computing }
  /-- It goes out with a later claim, if the ledger has refused all claims before. -/
  later : ∀ n, d.RefusesTries claim n → Unchanged d (d.afterTries claim n) ∧
    ((Ledger.start t.expressionId (d.afterTries claim n).ledger).1 = .ok () →
      (d.afterTries claim n).claim.1 = .ok { t with status := .computing })

theorem offers_of_peek? (hvalid : LawfulLedger.Valid d.ledger) (hb : d.board.Coherent) {t : Task}
    (hpeek : d.board.peek? = some t) : d.Offers t where
  now s hstart := claim_of_start (d := { d with ledger := s }) hb hpeek hstart
  later n hrefused := by
    obtain ⟨hsame, -⟩ := unchanged_afterTries_claim hvalid hb hrefused
    refine ⟨hsame, fun hstart => claim_of_start ?_ ?_ hstart⟩
    · rwa [hsame.board]
    · rwa [hsame.board]

/-! ## 5. Every refusal -/

omit [LawfulLedger σ] in
/-- What is refused, and that it leaves the dispatcher as it was. -/
structure RefusesCleanly (d : Dispatcher σ) : Prop where
  noTaskAvailable_iff : d.claim.1 = .error .noTaskAvailable ↔
    ∀ t ∈ d.board.tasks.values, t.isRunnable = false
  noTaskAvailable : d.claim.1 = .error .noTaskAvailable → d.claim.2 = d
  /-- What a refused claim would have handed out is what the next one hands out. -/
  claim : ∀ err, d.claim.1 = .error (.ledger err) →
    Unchanged d d.claim.2 ∧ ∃ t, d.board.peek? = some t ∧ d.Offers t
  taskNotFound_iff : ∀ (r : Report) (id : Int),
    (d.report r).1 = .error (.board (.taskNotFound id)) ↔
      id = r.id ∧ ∀ t ∈ d.board.tasks.values, t.id ≠ r.id
  taskNotClaimed_iff : ∀ (r : Report) (id : Int) (status : Status),
    (d.report r).1 = .error (.board (.taskNotClaimed id status)) ↔
      id = r.id ∧ status ≠ .computing ∧
        ∃ t ∈ d.board.tasks.values, t.id = r.id ∧ t.status = status
  report : ∀ (r : Report) (err : BoardError),
    (d.report r).1 = .error (.board err) → (d.report r).2 = d
  submit : ∀ (text : String) (err : FormulaError), Plan.ofFormula text = .error err →
    ∀ owner, d.submit text owner = (.error (.formula err), d)
  recover : ∀ err, (Ledger.unfinished d.ledger).1 = .error err →
    d.recover.1 = .error (.ledger err) ∧ Unchanged d d.recover.2

end Dispatcher

namespace Session

open Dispatcher

variable [LawfulLedger σ] {before : σ} {timings : Timings}

/-- Wherever a run stands, each refusal is given exactly for its reason and changes
nothing: a claim that the ledger refuses only puts off the task that it was for, and
neither a refused text nor a refused report leaves anything behind. -/
theorem refusals_change_nothing (hvalid : LawfulLedger.Valid before) (es : List Event) :
    ((start timings before).run es).dispatcher.RefusesCleanly := by
  have h : ((start timings before).run es).IsInStep := isInStep_run (isInStep_start hvalid) es
  exact {
    noTaskAvailable_iff := claim_eq_noTaskAvailable_iff h.valid h.coherent
    noTaskAvailable := claim_of_noTaskAvailable h.valid h.coherent
    claim := fun err herr => by
      obtain ⟨⟨t, hpeek⟩, hsame, -⟩ := claim_of_ledger_error h.valid h.coherent herr
      exact ⟨hsame, t, hpeek, offers_of_peek? h.valid h.coherent hpeek⟩
    taskNotFound_iff := fun r id => by
      rw [report_eq_board_error_iff h.valid, Board.complete_eq_taskNotFound_iff h.coherent]
    taskNotClaimed_iff := fun r id status => by
      rw [report_eq_board_error_iff h.valid, Board.complete_eq_taskNotClaimed_iff h.coherent]
    report := fun r err => report_of_board_error h.valid
    submit := fun text err herr owner => submit_of_error herr owner
    recover := fun err => recover_of_unlisted h.valid }

/-- The ledger refuses to start the expression twice. The product that the first claim
was for goes out with the third one. -/
theorem refusals_change_nothing_twice :
    let ledger := (FaultyLedger.ofLedger ({} : MemoryLedger) fun _ => "").withRefusals
      .start [true, true]
    let d := ((start {} ledger).run [.request (.submit "1+2*3" 1)]).dispatcher
    let product : Task := ⟨1, 1, .literal "2", .literal "3", .multiply, 1000, .computing, none, none⟩
    d.RefusesTries claim 2 ∧ Unchanged d (d.afterTries claim 2) ∧
      (d.afterTries claim 2).claim.1 = .ok product ∧
      (d.report (.success 2 .zero)).1 = .error (.board (.taskNotClaimed 2 .pending)) := by
  intro ledger d product
  have hempty : LawfulLedger.Valid ledger := fun _ _ h => nomatch h
  have hclean : d.RefusesCleanly := refusals_change_nothing hempty _
  have hrefused : d.RefusesTries claim 2 := by
    intro k hk
    refine ⟨.unavailable "", ?_⟩
    revert k
    decide +kernel
  obtain ⟨err, herr⟩ := hrefused 0 (by decide)
  obtain ⟨-, t, -, hoffers⟩ := hclean.claim err herr
  refine ⟨hrefused, (hoffers.later 2 hrefused).1, by decide +kernel, ?_⟩
  rw [hclean.taskNotClaimed_iff]
  decide +kernel

end Session

end Reckoner
