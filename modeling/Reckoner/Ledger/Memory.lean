/-
Reckoner.Ledger.Memory — expressions kept in memory.
-/
import Reckoner.Ledger.Basic
import Reckoner.IdMap

namespace Reckoner

/-- Expressions by id, and the greatest id ever given. -/
structure MemoryLedger where
  rows : IdMap Expression := .empty
  lastId : Int := 0
deriving DecidableEq

namespace MemoryLedger

/-- Keeps a new expression under the next id. -/
def insert (s : Submission) (m : MemoryLedger) : Except LedgerError Int × MemoryLedger :=
  let id := m.lastId + 1
  (.ok id, ⟨m.rows.insert id { id, text := s.text, owner := s.owner }, id⟩)

/-- Keeps an expression as it is, in the place of any of the same id. -/
def restore (e : Expression) (m : MemoryLedger) : MemoryLedger :=
  ⟨m.rows.insert e.id e, max m.lastId e.id⟩

/-- Changes the expression of an id. -/
def change (id : Int) (f : Expression → Expression) (m : MemoryLedger) :
    Except LedgerError Unit × MemoryLedger :=
  match m.rows.get? id with
  | some e => (.ok (), { m with rows := m.rows.insert id (f e) })
  | none => (.error (.notFound id), m)

instance : Ledger MemoryLedger where
  insert := insert
  get? id m := m.rows.get? id
  ownedBy owner m := m.rows.values.filter fun e => e.owner == owner
  unfinished m := (.ok (m.rows.values.filter fun e => !e.isFinished), m)
  start id m := m.change id Expression.started
  finish id o m := m.change id fun e => e.ended o

end MemoryLedger

end Reckoner
