/-
Reckoner.Proofs.Ledger.Submissions — what the expressions of a ledger were
submitted with.

An expression keeps its text and its owner for good (`Expression.submission`).
Starting and ending it change neither, so that claims and reports leave all
submissions as they are (`Ledger.SameSubmissions`). A database has them in the
order in which they came, which is that of their ids (`Database.submitted`), and
a user is listed his own.

  1. What an expression keeps
  2. Calls that change no submission
  3. The submissions in a database
-/
import Reckoner.Proofs.Dispatcher.Calls

namespace Reckoner

/-! ## 1. What an expression keeps -/

/-- What an expression was submitted with. -/
def Expression.submission (e : Expression) : Submission := ⟨e.text, e.owner⟩

@[simp] theorem Submission.submission_row (sub : Submission) (id : Int) :
    (sub.row id).submission = sub := rfl

theorem Expression.Becomes.submission_eq {old new : Expression} (h : old.Becomes new) :
    new.submission = old.submission := by
  rw [submission, submission, h.text_eq, h.owner_eq]

/-! ## 2. Calls that change no submission -/

section

variable {σ : Type} [Ledger σ]

namespace Ledger

/-- What the expression of an id was submitted with. -/
def submission? (id : Int) (s : σ) : Option Submission := (get? id s).map Expression.submission

/-- No expression comes or goes, and each keeps its text and its owner. -/
def SameSubmissions (s s' : σ) : Prop := ∀ id, submission? id s' = submission? id s

theorem SameSubmissions.refl (s : σ) : SameSubmissions s s := fun _ => rfl

variable [LawfulLedger σ] {s s' : σ} {id : Int}

theorem Ignores.sameSubmissions (h : Ignores s s') : SameSubmissions s s' := by
  intro j
  rw [submission?, submission?, h.same j]

theorem Sets.sameSubmissions {old new : Expression} (h : Sets id new s s')
    (hfound : get? id s = some old) (hbecomes : old.Becomes new) : SameSubmissions s s' := by
  intro j
  by_cases hj : j = id
  · rw [submission?, submission?, hj, h.get?_self, hfound, Option.map_some, Option.map_some,
      hbecomes.submission_eq]
  · rw [submission?, submission?, h.get?_of_ne hj]

theorem Finishes.sameSubmissions {o : Outcome} {answer : Except LedgerError Unit}
    (h : Finishes id o s answer s') : SameSubmissions s s' := by
  cases h with
  | recorded found sets => exact sets.sameSubmissions found (.ended _ _ o)
  | refused ignores => exact ignores.sameSubmissions

end Ledger

namespace Dispatcher

open Ledger (SameSubmissions)

variable [LawfulLedger σ] {d d' : Dispatcher σ}

theorem Enqueues.sameSubmissions {id : Int} {plan : Plan} {answer : Except DispatchError Unit}
    (h : Enqueues d id plan answer d') : SameSubmissions d.ledger d'.ledger := by
  cases h with
  | ended constant found sets => exact sets.sameSubmissions found (.ended _ _ _)
  | refused constant ignores => exact ignores.sameSubmissions
  | admitted operator => exact .refl d.ledger

theorem Claims.sameSubmissions {answer : Except DispatchError Task} (h : Claims d answer d') :
    SameSubmissions d.ledger d'.ledger := by
  cases h with
  | idle nothing => exact .refl d.ledger
  | refused next ignores => exact ignores.sameSubmissions
  | handedOut next found sets => exact sets.sameSubmissions found (.started _)

theorem Reports.sameSubmissions {r : Report} {answer : Except DispatchError Unit}
    (h : Reports d r answer d') : SameSubmissions d.ledger d'.ledger := by
  cases h with
  | rejected rejects => exact .refl d.ledger
  | progressed completes => exact .refl d.ledger
  | ended completes finishes => exact finishes.sameSubmissions

end Dispatcher

end

/-! ## 3. The submissions in a database -/

namespace Database

variable {db db' : Database}

/-- All submissions, each with the id of its expression, lowest id first. -/
def submitted (db : Database) : List (Int × Submission) :=
  db.expressions.rows.values.map fun e => (e.id, e.submission)

end Database

end Reckoner
