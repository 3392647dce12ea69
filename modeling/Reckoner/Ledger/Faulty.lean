/-
Reckoner.Ledger.Faulty — a ledger whose calls may be refused.

For each of the four calls a dispatcher makes, a list says which of the next
ones are refused. A refused call does not reach the ledger behind.
-/
import Reckoner.Ledger.Basic

namespace Reckoner

/-- The calls that can be refused. -/
inductive LedgerCall where
  | insert
  | unfinished
  | start
  | finish
deriving DecidableEq

/-- A ledger, and for each call whether its next ones are refused. -/
structure FaultyLedger (σ : Type) where
  ledger : σ
  refusals : LedgerCall → List Bool
  /-- What is said of a refused call. -/
  reason : LedgerCall → String

namespace FaultyLedger

variable {σ : Type}

/-- A ledger none of whose calls is refused. -/
def ofLedger (ledger : σ) (reason : LedgerCall → String) : FaultyLedger σ :=
  ⟨ledger, fun _ => [], reason⟩

/-- The ledger with a plan for the next calls of one kind. -/
def withRefusals (f : FaultyLedger σ) (call : LedgerCall) (plan : List Bool) : FaultyLedger σ :=
  { f with refusals := fun c => if c = call then plan else f.refusals c }

/-- Makes a call unless it is to be refused. -/
def attempt {α : Type} (f : FaultyLedger σ) (call : LedgerCall)
    (action : σ → Except LedgerError α × σ) : Except LedgerError α × FaultyLedger σ :=
  let g := f.withRefusals call (f.refusals call).tail
  if (f.refusals call).head? = some true then
    (.error (.unavailable (f.reason call)), g)
  else
    let (answer, ledger) := action f.ledger
    (answer, { g with ledger })

instance [Ledger σ] : Ledger (FaultyLedger σ) where
  insert s f := f.attempt .insert (Ledger.insert s)
  get? id f := Ledger.get? id f.ledger
  ownedBy owner f := Ledger.ownedBy owner f.ledger
  unfinished f := f.attempt .unfinished Ledger.unfinished
  start id f := f.attempt .start (Ledger.start id)
  finish id o f := f.attempt .finish (Ledger.finish id o)

end FaultyLedger

end Reckoner
