/-
Reckoner.Worker.Source — where a worker gets its tasks.

A source hands out tasks and takes reports. A dispatcher is one, and so is a
script that plays back prepared answers and keeps the reports it was given.

  1. Sources
  2. A dispatcher as a source
  3. A script as a source
-/
import Reckoner.Dispatcher

namespace Reckoner

/-! ## 1. Sources -/

/-- Why a source fails. -/
inductive SourceError where
  /-- No answer came, or its body cannot be read. -/
  | http
  /-- The other side refused the request. -/
  | status (code : Nat) (body : String)
  /-- A task came that cannot be read; its id is known if it can still be
  reported on. -/
  | malformed (id : Option Int) (reason : String)
  | dispatch (e : DispatchError)
deriving DecidableEq

/-- The error in words. -/
def SourceError.message : SourceError → String
  | .http => "HTTP error"
  | .status code body => "orchestrator returned " ++ Text.natural code ++ ": " ++ body
  | .malformed _ reason => "malformed task: " ++ reason
  | .dispatch e => "scheduler error: " ++ e.message

/-- Hands out tasks and takes reports; what it remembers is a `σ`. -/
structure TaskSource (σ : Type) where
  /-- A task to carry out, or none if there is nothing to do. -/
  fetch : σ → Except SourceError (Option Task) × σ
  submit : Report → σ → Except SourceError Unit × σ

/-! ## 2. A dispatcher as a source -/

/-- A dispatcher hands out its tasks directly. -/
def Dispatcher.source (σ : Type) [Ledger σ] : TaskSource (Dispatcher σ) where
  fetch d :=
    match d.claim with
    | (.ok task, d) => (.ok (some task), d)
    | (.error .noTaskAvailable, d) => (.ok none, d)
    | (.error e, d) => (.error (.dispatch e), d)
  submit r d :=
    let (answer, d) := d.report r
    (answer.mapError .dispatch, d)

/-! ## 3. A script as a source -/

/-- Prepared answers, and the reports given so far. -/
structure Script where
  fetches : List (Except SourceError (Option Task))
  submits : List (Except SourceError Unit)
  sent : List Report := []

/-- Plays back a script; after its end there is nothing to do and every report
is taken. -/
def Script.source : TaskSource Script where
  fetch s := (s.fetches.head?.getD (.ok none), { s with fetches := s.fetches.tail })
  submit r s :=
    (s.submits.head?.getD (.ok ()),
      { s with submits := s.submits.tail, sent := s.sent ++ [r] })

end Reckoner
