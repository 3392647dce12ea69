/-
Reckoner.Proofs.Dispatcher.Calls — what a dispatcher's calls make of its ledger.

A dispatcher calls its ledger to keep a new row, to start one and to end one; a
call may also record nothing, because it is refused or only reads (`Call`). Each
call leads a row on to what it may become (`Expression.Becomes`) and keeps what
its status promises of its result and its error (`Expression.Consistent`), and so
do any number of calls.

  1. What a row may become
  2. What a row says
  3. Calls
-/
import Mathlib.Logic.Relation
import Reckoner.Proofs.Dispatcher.Effect
import Reckoner.Proofs.Dispatcher.Sound

namespace Reckoner

/-! ## 1. What a row may become -/

namespace Expression

/-- A row and what is found in its place later. -/
structure Becomes (old new : Expression) : Prop where
  id_eq : new.id = old.id
  text_eq : new.text = old.text
  owner_eq : new.owner = old.owner
  leadsTo : old.status.LeadsTo new.status
  frozen : old.isFinished = true → new = old

namespace Becomes

variable {e f g : Expression}

theorem refl (e : Expression) : Becomes e e := ⟨rfl, rfl, rfl, .refl _, fun _ => rfl⟩

theorem trans (hef : Becomes e f) (hfg : Becomes f g) : Becomes e g where
  id_eq := hfg.id_eq.trans hef.id_eq
  text_eq := hfg.text_eq.trans hef.text_eq
  owner_eq := hfg.owner_eq.trans hef.owner_eq
  leadsTo := hef.leadsTo.trans hfg.leadsTo
  frozen hfinished := by
    have hf := hef.frozen hfinished
    rw [hfg.frozen (by rw [hf, hfinished]), hf]

theorem started (e : Expression) : Becomes e e.started := by
  rw [Expression.started]
  split
  · next hpending =>
    refine ⟨rfl, rfl, rfl, ?_, fun hfinished => ?_⟩
    · rw [hpending]
      exact .start
    · rw [isFinished, hpending] at hfinished
      cases hfinished
  · exact refl e

theorem ended (keep : Number → Number) (e : Expression) (o : Outcome) :
    Becomes e (e.endedWith keep o) := by
  cases hfinished : e.isFinished with
  | true =>
    rw [endedWith, hfinished, if_pos rfl]
    exact refl e
  | false =>
    rw [endedWith_of_unfinished hfinished]
    refine ⟨rfl, rfl, rfl, .finish hfinished ?_, fun hf => ?_⟩
    · cases o <;> rfl
    · rw [hfinished] at hf
      cases hf

end Becomes

/-! ## 2. What a row says -/

/-- The result and the error of a row agree with its status. -/
structure Consistent (e : Expression) : Prop where
  of_open : e.isFinished = false → e.result = .zero ∧ e.error = none
  of_done : e.status = .done → e.error = none
  of_error : e.status = .error → ∃ text, e.error = some text ∧ text ≠ ""

end Expression

/-- An outcome that is a failure says why. -/
def Outcome.Explained (o : Outcome) : Prop := o.error? ≠ some ""

theorem Outcome.Explained.done (value : Number) : (Outcome.done value).Explained := nofun

theorem Outcome.Explained.failed {error : String} (h : error ≠ "") (result : Number) :
    (Outcome.failed result error).Explained :=
  fun hempty => h (Option.some.inj hempty)

theorem FormulaError.message_ne_empty : ∀ err : FormulaError, err.message ≠ ""
  | .parse err => append_ne_empty (by decide) err.message
  | .plan err => append_ne_empty (by decide) err.message

/-- Only a report with an error text ends an expression in an error. -/
theorem Board.explained_of_complete {b b' : Board} {r : Report} {e : Int} {o : Outcome}
    (h : b.complete r = .ok (.finished e o, b')) : o.Explained := by
  obtain ⟨t, -, -, hc⟩ := completes_of_complete h
  cases hc with
  | failed isError =>
    rw [Report.errorText?, Option.filter_eq_some_iff] at isError
    exact .failed (of_decide_eq_true isError.2) _
  | last => exact .done _

namespace Expression.Consistent

variable {e : Expression}

theorem row (sub : Submission) (id : Int) : Consistent (sub.row id) :=
  ⟨fun _ => ⟨rfl, rfl⟩, Status.noConfusion, Status.noConfusion⟩

theorem started (h : Consistent e) : Consistent e.started := by
  rw [Expression.started]
  split
  · next hpending =>
    have hopen := h.of_open (by rw [isFinished, hpending]; rfl)
    exact ⟨fun _ => hopen, Status.noConfusion, Status.noConfusion⟩
  · exact h

theorem ended (h : Consistent e) (keep : Number → Number) {o : Outcome} (ho : o.Explained) :
    Consistent (e.endedWith keep o) := by
  cases hfinished : e.isFinished with
  | true => rwa [endedWith, hfinished, if_pos rfl]
  | false =>
    rw [endedWith_of_unfinished hfinished]
    cases o with
    | done value => exact ⟨Bool.noConfusion, fun _ => rfl, Status.noConfusion⟩
    | failed result error =>
      exact ⟨Bool.noConfusion, Status.noConfusion,
        fun _ => ⟨error, rfl, fun hempty => ho (congrArg some hempty)⟩⟩

end Expression.Consistent

/-! ## 3. Calls -/

namespace Ledger

variable {σ : Type} [Ledger σ] [LawfulLedger σ]

/-- What one call of a dispatcher makes of a ledger. -/
inductive Call (s s' : σ) : Prop
  | ignored (ignores : Ignores s s')
  | inserted {id : Int} {sub : Submission} (fresh : get? id s = none)
      (sets : Sets id (sub.row id) s s')
  | started {id : Int} {row : Expression} (found : get? id s = some row)
      (sets : Sets id row.started s s')
  | ended {id : Int} {row : Expression} {o : Outcome} (found : get? id s = some row)
      (explained : o.Explained)
      (sets : Sets id (row.endedWith (LawfulLedger.keep σ) o) s s')

/-- What some calls, one after the other, make of a ledger. -/
abbrev Calls : σ → σ → Prop := Relation.ReflTransGen Call

variable {s s' : σ} {id : Int} {row : Expression}

theorem Finishes.call {o : Outcome} {answer : Except LedgerError Unit}
    (h : Finishes id o s answer s') (ho : o.Explained) : Call s s' := by
  cases h with
  | recorded found sets => exact .ended found ho sets
  | refused ignores => exact .ignored ignores

/-- Where one row is set to what it may become, every row is. -/
theorem Sets.becomes {new : Expression} (hsets : Sets id new s s')
    (hnew : ∀ old, get? id s = some old → old.Becomes new) {j : Int}
    (hrow : get? j s = some row) : ∃ row', get? j s' = some row' ∧ row.Becomes row' := by
  by_cases hj : j = id
  · subst hj
    exact ⟨new, hsets.get?_self, hnew row hrow⟩
  · exact ⟨row, (hsets.get?_of_ne hj).trans hrow, .refl row⟩

theorem Call.becomes (h : Call s s') (hrow : get? id s = some row) :
    ∃ row', get? id s' = some row' ∧ row.Becomes row' := by
  cases h with
  | ignored ignores => exact ⟨row, (ignores.same id).trans hrow, .refl row⟩
  | inserted fresh sets =>
    refine sets.becomes (fun old hold => ?_) hrow
    rw [fresh] at hold
    cases hold
  | started found sets =>
    refine sets.becomes (fun old hold => ?_) hrow
    rw [found] at hold
    cases hold
    exact .started _
  | ended found explained sets =>
    refine sets.becomes (fun old hold => ?_) hrow
    rw [found] at hold
    cases hold
    exact .ended _ _ _

/-- Every row says what its status promises. -/
def AllConsistent (s : σ) : Prop := ∀ id row, get? id s = some row → row.Consistent

theorem Sets.allConsistent {new : Expression} (hsets : Sets id new s s') (h : AllConsistent s)
    (hnew : new.Consistent) : AllConsistent s' := by
  intro j row hrow
  by_cases hj : j = id
  · subst hj
    rw [hsets.get?_self] at hrow
    cases hrow
    exact hnew
  · exact h j row ((hsets.get?_of_ne hj).symm.trans hrow)

theorem Call.allConsistent (hcall : Call s s') (h : AllConsistent s) : AllConsistent s' := by
  cases hcall with
  | ignored ignores => exact fun id row hrow => h id row ((ignores.same id).symm.trans hrow)
  | inserted fresh sets => exact sets.allConsistent h (.row _ _)
  | started found sets => exact sets.allConsistent h (h _ _ found).started
  | ended found explained sets => exact sets.allConsistent h ((h _ _ found).ended _ explained)

theorem Calls.becomes (h : Calls s s') (hrow : get? id s = some row) :
    ∃ row', get? id s' = some row' ∧ row.Becomes row' := by
  induction h with
  | refl => exact ⟨row, hrow, .refl row⟩
  | tail _ hcall ih =>
    obtain ⟨middle, hmiddle, hfirst⟩ := ih
    obtain ⟨row', hrow', hlast⟩ := hcall.becomes hmiddle
    exact ⟨row', hrow', hfirst.trans hlast⟩

theorem Calls.allConsistent (hcalls : Calls s s') (h : AllConsistent s) : AllConsistent s' := by
  induction hcalls with
  | refl => exact h
  | tail _ hcall ih => exact hcall.allConsistent ih

end Ledger

end Reckoner
