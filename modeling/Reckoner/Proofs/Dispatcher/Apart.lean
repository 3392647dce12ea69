/-
Reckoner.Proofs.Dispatcher.Apart — what is done with one expression is no matter
to another.

A claim acts on the expression of the task that is next, and a report on the
expression of its task. All that the board and the ledger hold of any other
expression stays as it was (`Spares`), also where the ledger refuses a call and
where the expression acted on ends. A submission leaves all expressions that are
there already.

  1. What a dispatcher holds of an expression
  2. Operations on the other expressions
  3. Every run
-/
import Reckoner.Proofs.Board.Apart
import Reckoner.Proofs.Dispatcher.Run

namespace Reckoner

variable {σ : Type} [Ledger σ]

namespace Dispatcher

/-! ## 1. What a dispatcher holds of an expression -/

/-- A change of the dispatcher leaves all that it holds of an expression: the tasks
with their places in the indexes, the counter and the row. -/
structure Spares (d d' : Dispatcher σ) (e : Int) : Prop where
  board : d.board.Spares d'.board e
  row : Ledger.get? e d'.ledger = Ledger.get? e d.ledger

theorem Spares.refl (d : Dispatcher σ) (e : Int) : d.Spares d e := ⟨.refl d.board e, rfl⟩

variable [LawfulLedger σ] {d d' : Dispatcher σ} {out : List Task} {e : Int}

/-! ## 2. Operations on the other expressions -/

theorem Claims.spares {answer : Except DispatchError Task} (hclaims : Claims d answer d')
    (h : InStep d.board d.ledger out)
    (hne : ∀ t, d.board.peek? = some t → t.expressionId ≠ e) : d.Spares d' e := by
  cases hclaims with
  | idle nothing => exact .refl d e
  | refused next ignores => exact ⟨.refl d.board e, ignores.same e⟩
  | handedOut next found sets =>
    exact ⟨h.served.spares_handOut next (hne _ next), sets.get?_of_ne (hne _ next).symm⟩

theorem Reports.spares {r : Report} {answer : Except DispatchError Unit}
    (hreports : Reports d r answer d') (h : InStep d.board d.ledger out)
    (hne : ∀ t, d.board.get? r.id = some t → t.expressionId ≠ e) : d.Spares d' e := by
  cases hreports with
  | rejected rejects => exact .refl d e
  | progressed completes => exact ⟨h.served.spares_progressed completes hne, rfl⟩
  | @ended ended o b answer s completes finishes =>
    have hboard := h.served.spares_ended completes hne
    obtain ⟨t, ht, -, hc⟩ := Board.completes_of_complete completes
    have hended : ended ≠ e := hc.owner_of_finished ▸ hne t ht
    cases finishes with
    | recorded found sets => exact ⟨hboard, sets.get?_of_ne hended.symm⟩
    | refused ignores => exact ⟨hboard, ignores.same e⟩

theorem Enqueues.spares {id : Int} {plan : Plan} {answer : Except DispatchError Unit}
    (henqueues : Enqueues d id plan answer d') (h : InStep d.board d.ledger out)
    (hlive : d.board.isLive id = false) {text : String} (hplan : Plan.ofFormula text = .ok plan)
    (hne : e ≠ id) : d.Spares d' e := by
  cases henqueues with
  | ended constant found sets => exact ⟨.refl d.board e, sets.get?_of_ne hne⟩
  | refused constant ignores => exact ⟨.refl d.board e, ignores.same e⟩
  | admitted operator =>
    obtain ⟨-, tokens, -, -, htokens⟩ := Plan.exists_tree_of_ofFormula hplan
    exact ⟨h.served.spares_addPlan d.timings htokens hlive hne, rfl⟩

/-- The new expression has a row of its own, and no task yet. -/
theorem Enqueues.spares_new {id : Int} {sub : Submission} {s : σ} {plan : Plan}
    {answer : Except DispatchError Unit}
    (henqueues : Enqueues { d with ledger := s } id plan answer d')
    (h : InStep d.board d.ledger out) (hfresh : Ledger.get? id d.ledger = none)
    (hsets : Ledger.Sets id (sub.row id) d.ledger s) {text : String}
    (hplan : Plan.ofFormula text = .ok plan) (hrow : Ledger.get? e d.ledger ≠ none) :
    d.Spares d' e := by
  have hne : e ≠ id := by
    rintro rfl
    exact hrow hfresh
  have hlive := h.isLive_of_fresh hfresh
  obtain ⟨hboard, hsame⟩ :=
    henqueues.spares (h.sets_of_not_live hsets hlive) hlive hplan hne
  exact ⟨hboard, hsame.trans (hsets.get?_of_ne hne)⟩

theorem Submits.spares {text : String} {owner : Int} {answer : Except DispatchError Int}
    (hsubmits : Submits d text owner answer d') (h : InStep d.board d.ledger out)
    (hrow : Ledger.get? e d.ledger ≠ none) : d.Spares d' e := by
  cases hsubmits with
  | rejected noFormula => exact .refl d e
  | refused formula ignores => exact ⟨.refl d.board e, ignores.same e⟩
  | unrecorded formula fresh sets enqueues => exact enqueues.spares_new h fresh sets formula hrow
  | taken formula fresh sets enqueues =>
    obtain ⟨hboard, hsame⟩ := enqueues.spares_new h fresh sets formula hrow
    exact ⟨hboard, hsame⟩

end Dispatcher

/-! ## 3. Every run -/

namespace Session

variable [LawfulLedger σ] {before : σ} {timings : Timings}

/-- Whatever has happened to a dispatcher, with calls refused, with recoveries and
restarts: a claim and a report, taken or refused, change nothing of the expressions
that they do not act on, and a submission nothing of any expression that is there. -/
theorem expressions_apart (hvalid : LawfulLedger.Valid before) (es : List Event) (e : Int) :
    let d := ((start timings before).run es).dispatcher
    ((∀ t, d.board.peek? = some t → t.expressionId ≠ e) → d.Spares d.claim.2 e) ∧
    (∀ r, (∀ t, d.board.get? r.id = some t → t.expressionId ≠ e) →
      d.Spares (d.report r).2 e) ∧
    ∀ text owner, Ledger.get? e d.ledger ≠ none ∨ d.board.isLive e = true →
      d.Spares (d.submit text owner).2 e := by
  intro d
  have h : ((start timings before).run es).IsInStep := isInStep_run (isInStep_start hvalid) es
  refine ⟨fun hne => (Dispatcher.claims h.valid h.coherent).spares h hne,
    fun r hne => (Dispatcher.reports h.valid r).spares h hne, fun text owner hthere => ?_⟩
  -- A live expression has a row.
  have hrow : Ledger.get? e d.ledger ≠ none := by
    rcases hthere with hrow | hlive
    · exact hrow
    · obtain ⟨row, hrow, -⟩ := h.covered e hlive
      exact fun hnone => nomatch hrow.symm.trans hnone
  exact (Dispatcher.submits h.valid text owner).spares h hrow

/-- The first expression fails, and the ledger does not take its outcome: the second
keeps its tasks, one of which is out. -/
theorem expressions_apart_failure :
    let ledger := (FaultyLedger.ofLedger ({} : MemoryLedger) fun _ => "").withRefusals
      .finish [true]
    let events : List Event := [.request (.submit "1/0" 1), .request (.submit "4-5+6" 2),
      .request .claim, .request .claim]
    let d := ((start {} ledger).run events).dispatcher
    let r := Report.failure 1 "division by zero"
    (d.board.tasksOf 2).map (·.status) = [.computing, .pending] ∧
    (d.report r).1 = .error (.ledger (.unavailable "")) ∧ (d.report r).2.board.tasksOf 1 = [] ∧
    d.Spares (d.report r).2 2 ∧ d.Spares d.claim.2 2 ∧ d.Spares (d.submit "7*8" 1).2 2 := by
  intro ledger events d r
  have hempty : LawfulLedger.Valid ledger := fun _ _ h => nomatch h
  obtain ⟨hclaim, hreport, hsubmit⟩ := @expressions_apart _ _ _ ledger {} hempty events 2
  have hnext : d.board.peek? = none := by decide +kernel
  have htask : (d.board.get? r.id).map (·.expressionId) = some 1 := by decide +kernel
  refine ⟨by decide +kernel, by decide +kernel, by decide +kernel, hreport r fun t ht => ?_,
    hclaim fun t ht => (nomatch hnext.symm.trans ht), hsubmit _ _ (.inr (by decide +kernel))⟩
  have howner : some t.expressionId = some 1 := by rw [← htask, ht]; rfl
  rw [Option.some.inj howner]
  decide

end Session

end Reckoner
