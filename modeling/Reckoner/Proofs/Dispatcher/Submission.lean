/-
Reckoner.Proofs.Dispatcher.Submission — what a submission that fails leaves behind.

A text that is no formula does not reach the ledger, and a formula whose row the
ledger does not take does not reach the board. So a submission that fails changes
neither the board nor the counts. The ledger is called twice only for a formula
without operators: its row is kept first and ended then. Where the second call is
refused, the row of the first stays (`failed_constant_leaves_row`), and this is the
only way in which a submission that fails leaves anything
(`failed_submission_leaves_nothing_iff`).

  1. The submission with two calls
  2. Submissions that fail
-/
import Reckoner.Proofs.Dispatcher.Effect

namespace Reckoner.Dispatcher

variable {σ : Type} [Ledger σ]

open Ledger (SameRows SetsRow)

/-! ## 1. The submission with two calls -/

/-- The text is a formula without operators, and the ledger takes its row. -/
def KeepsConstant (s : σ) (text : String) (owner : Int) : Prop :=
  ∃ plan value id s', Plan.ofFormula text = .ok plan ∧ plan.constant? = some value ∧
    Ledger.insert ⟨text, owner⟩ s = (.ok id, s')

theorem not_keepsConstant_of_operator {s : σ} {text : String} {owner : Int} {plan : Plan}
    (hplan : Plan.ofFormula text = .ok plan) (hoperator : plan.constant? = none) :
    ¬ KeepsConstant s text owner := by
  rintro ⟨plan', value, id, s', hplan', hconstant, -⟩
  rw [hplan] at hplan'
  cases hplan'
  rw [hoperator] at hconstant
  cases hconstant

/-! ## 2. Submissions that fail -/

variable [LawfulLedger σ] {d d' : Dispatcher σ} {text : String} {owner : Int}
  {err : DispatchError}

/-- Taking up an expression fails only where its formula has no operators and the
ledger does not record how it ended. -/
theorem Enqueues.eq_of_error {id : Int} {plan : Plan} (h : Enqueues d id plan (.error err) d') :
    (∃ value, plan.constant? = some value) ∧ Ledger.Ignores d.ledger d'.ledger ∧
      d' = { d with ledger := d'.ledger } := by
  cases h with
  | refused constant ignores => exact ⟨⟨_, constant⟩, ignores, rfl⟩

/-- A submission that fails changes neither the board nor the counts, and no row
that was there. It leaves a row behind exactly if the formula has no operators and
the ledger has taken the row, which is then new and still pending. -/
theorem failed_submission_leaves_nothing_iff (hvalid : LawfulLedger.Valid d.ledger)
    (hfails : d.submit text owner = (.error err, d')) :
    d' = { d with ledger := d'.ledger } ∧
      (SameRows d.ledger d'.ledger ↔ ¬ KeepsConstant d.ledger text owner) ∧
      (KeepsConstant d.ledger text owner → ∃ id, Ledger.get? id d.ledger = none ∧
        SetsRow id { id, text, owner, status := .pending, result := .zero, error := none }
          d.ledger d'.ledger) := by
  rw [submit] at hfails
  split at hfails
  · next e hplan =>
    cases hfails
    have hnot : ¬ KeepsConstant d.ledger text owner := by
      rintro ⟨plan, value, id, s', hplan', -⟩
      rw [hplan] at hplan'
      cases hplan'
    exact ⟨rfl, ⟨fun _ => hnot, fun _ _ => rfl⟩, fun hkeeps => absurd hkeeps hnot⟩
  · next plan hplan =>
    split at hfails
    · next e s hinsert =>
      cases hfails
      have hnot : ¬ KeepsConstant d.ledger text owner := by
        rintro ⟨plan', value, id, s', -, -, hinsert'⟩
        rw [hinsert] at hinsert'
        cases hinsert'
      have hsame := (LawfulLedger.insert_error hvalid hinsert).2
      exact ⟨rfl, ⟨fun _ => hnot, fun _ => hsame⟩, fun hkeeps => absurd hkeeps hnot⟩
    · next id s hinsert =>
      obtain ⟨hvalid', hfresh, hsets⟩ := LawfulLedger.insert_ok hvalid hinsert
      have henqueues := enqueues (d := { d with ledger := s }) hvalid' id plan
      cases henq : enqueue { d with ledger := s } id plan with
      | mk answer d'' =>
        rw [henq] at hfails henqueues
        cases answer with
        | ok _ => cases hfails
        | error e =>
          cases hfails
          obtain ⟨⟨value, hconstant⟩, hignores, hledger⟩ := henqueues.eq_of_error
          have hkeeps : KeepsConstant d.ledger text owner :=
            ⟨plan, value, id, s, hplan, hconstant, hinsert⟩
          have hrow : SetsRow id (Submission.row ⟨text, owner⟩ id) d.ledger d'.ledger :=
            fun j => (hignores.same j).trans (hsets j)
          refine ⟨hledger, ⟨fun hsame => ?_, fun hnot => absurd hkeeps hnot⟩,
            fun _ => ⟨id, hfresh, hrow⟩⟩
          -- The new row is not among the rows of before.
          have hnew := hsame id
          rw [hrow id, if_pos rfl, hfresh] at hnew
          cases hnew

/-- The ledger refuses the row of a formula with operators. -/
theorem failed_submission_leaves_nothing_product :
    let ledger := (FaultyLedger.ofLedger ({} : MemoryLedger) fun _ => "").withRefusals
      .insert [true]
    let d := start {} ledger
    (∃ err, (d.submit "2*3" 1).1 = .error err) ∧ (d.submit "2*3" 1).2.board = d.board ∧
      SameRows d.ledger (d.submit "2*3" 1).2.ledger := by
  intro ledger d
  have hempty : LawfulLedger.Valid d.ledger := fun _ _ h => nomatch h
  have hanswer : (d.submit "2*3" 1).1 = .error (.ledger (.unavailable "")) := by decide +kernel
  have hfails : d.submit "2*3" 1 =
      (.error (.ledger (.unavailable "")), (d.submit "2*3" 1).2) := by rw [← hanswer]
  have hplan : Plan.ofFormula "2*3" =
      .ok (Tree.node .multiply (.leaf "2") (.leaf "3")).plan := by decide +kernel
  obtain ⟨hledger, hsame, -⟩ := failed_submission_leaves_nothing_iff hempty hfails
  refine ⟨⟨_, hanswer⟩, ?_, hsame.2 (not_keepsConstant_of_operator hplan rfl)⟩
  rw [hledger]

/-- The row of a number is kept, but not how it ends: the user is told of an error,
and the row stays. -/
theorem failed_constant_leaves_row :
    let ledger := (FaultyLedger.ofLedger ({} : MemoryLedger) fun _ => "").withRefusals
      .finish [true]
    let d := start {} ledger
    (d.submit "5" 1).1 = .error (.ledger (.unavailable "")) ∧ Ledger.get? 1 d.ledger = none ∧
      Ledger.get? 1 (d.submit "5" 1).2.ledger =
        some { id := 1, text := "5", owner := 1 } := by
  decide +kernel

end Reckoner.Dispatcher
