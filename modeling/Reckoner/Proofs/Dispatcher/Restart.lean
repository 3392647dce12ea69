/-
Reckoner.Proofs.Dispatcher.Restart — reports that come from before a restart.

A report names its task by id alone, and a restarted dispatcher counts its tasks
from one again. So a report on a task of the dispatcher before is refused exactly
as long as no task of the same id is out with a worker of the new one
(`late_report_refused_iff`). Once there is one, the report is taken for a report
on that task (`late_report_taken`).

  1. Reports that are refused
  2. Reports from before a restart
-/
import Reckoner.Proofs.Dispatcher.Refusal

namespace Reckoner

/-! ## 1. Reports that are refused -/

/-- A board refuses exactly the reports on tasks that are not being computed. -/
theorem Board.complete_eq_error_iff (b : Board) (r : Report) :
    (∃ err, b.complete r = .error err) ↔
      ∀ t, b.get? r.id = some t → t.status ≠ .computing := by
  constructor
  · rintro ⟨err, herr⟩ t ht hs
    rw [complete_eq, ht] at herr
    simp only [hs, ne_eq, not_true_eq_false, if_false] at herr
    split at herr
    · cases herr
    · split at herr <;> cases herr
  · intro hnone
    rw [complete_eq]
    cases ht : b.get? r.id with
    | none => exact ⟨_, rfl⟩
    | some t => exact ⟨_, if_pos (hnone t ht)⟩

variable {σ : Type} [Ledger σ]

namespace Session

/-- The task of an id is out with a worker of this dispatcher. -/
def IsOut (s : Session σ) (id : Int) : Prop :=
  ∃ t ∈ s.handedOut, s.dispatcher.board.get? id = some t

instance (s : Session σ) (id : Int) : Decidable (s.IsOut id) :=
  inferInstanceAs (Decidable (∃ t ∈ s.handedOut, s.dispatcher.board.get? id = some t))

variable [LawfulLedger σ] {s : Session σ}

theorem isOut_iff (h : s.IsInStep) (id : Int) :
    s.IsOut id ↔ ∃ t, s.dispatcher.board.get? id = some t ∧ t.status = .computing := by
  constructor
  · rintro ⟨t, ht, hget⟩
    exact ⟨t, hget, h.out t ht⟩
  · rintro ⟨t, hget, hs⟩
    exact ⟨t, h.computing t (Board.mem_tasks_of_get? h.coherent hget) hs, hget⟩

/-- A report is refused, and changes nothing, exactly if its task is not out. -/
theorem report_refused_iff (h : s.IsInStep) (r : Report) :
    (∃ err, s.dispatcher.report r = (.error (.board err), s.dispatcher)) ↔ ¬ s.IsOut r.id := by
  rw [isOut_iff h, not_exists]
  simp only [not_and]
  rw [← Board.complete_eq_error_iff]
  constructor
  · rintro ⟨err, herr⟩
    exact ⟨err, (Dispatcher.report_eq_board_error_iff h.valid r err).1 (congrArg Prod.fst herr)⟩
  · rintro ⟨err, herr⟩
    rw [← Dispatcher.report_eq_board_error_iff h.valid] at herr
    exact ⟨err, Prod.ext herr (Dispatcher.report_of_board_error h.valid herr)⟩

/-! ## 2. Reports from before a restart -/

variable {before : σ} {timings : Timings}

/-- A report on a task that was handed out before a restart is refused, and changes
neither a task nor a row, exactly if the new dispatcher has no task of that id out. -/
theorem late_report_refused_iff (hvalid : LawfulLedger.Valid before) (es later : List Event) :
    let old := (start timings before).run es
    let new := old.run (.restart :: .request .recover :: later)
    ∀ t ∈ old.handedOut, ∀ r : Report, r.id = t.id →
      ((∃ err, new.dispatcher.report r = (.error (.board err), new.dispatcher)) ↔
        ¬ new.IsOut t.id) := by
  intro old new t _ r hid
  have hold : old.IsInStep := isInStep_run (isInStep_start hvalid) es
  rw [← hid]
  exact report_refused_iff (isInStep_run hold _) r

/-- A sum and a product go out with workers, and the sum is reported on. -/
def productOut : List Event :=
  [.request (.submit "1+2" 1), .request (.submit "5*5" 1), .request .claim, .request .claim,
    .request (.report (.success 1 (.ofInt 3)))]

/-- After the restart the product is task 1, and no task 2 is out. -/
theorem late_report_refused_product :
    let old := (start {} ({} : MemoryLedger)).run productOut
    let new := old.run [.restart, .request .recover, .request .claim]
    let r := Report.success 2 (.ofInt 25)
    (∃ t ∈ old.handedOut, r.id = t.id ∧ r = t.execute) ∧
      ∃ err, new.dispatcher.report r = (.error (.board err), new.dispatcher) := by
  intro old new r
  have hempty : LawfulLedger.Valid ({} : MemoryLedger) := fun _ _ h => nomatch h
  have hexecuted : ∃ t ∈ old.handedOut, r.id = t.id ∧ r = t.execute := by decide +kernel
  have hout : ¬ new.IsOut 2 := by decide +kernel
  have hlater := @late_report_refused_iff _ _ _ ({} : MemoryLedger) {} hempty productOut
    [.request .claim]
  obtain ⟨t, ht, hid, hr⟩ := hexecuted
  have hnot : ¬ new.IsOut t.id := hid ▸ hout
  exact ⟨⟨t, ht, hid, hr⟩, (hlater t ht r hid).2 hnot⟩

/-- A difference is task 2 after the restart. The report on the product of before is
taken for its result. -/
theorem late_report_taken :
    let old := (start {} ({} : MemoryLedger)).run productOut
    let new := old.run [.restart, .request .recover, .request (.submit "7-1" 1), .request .claim,
      .request .claim]
    let r := Report.success 2 (.ofInt 25)
    (∃ t ∈ old.handedOut, r.id = t.id ∧ r = t.execute) ∧ (new.dispatcher.report r).1 = .ok () ∧
      Ledger.get? 3 (new.step (.report r)).dispatcher.ledger =
        some { id := 3, text := "7-1", status := .done, result := .ofInt 25, owner := 1 } := by
  decide +kernel

end Session

end Reckoner
