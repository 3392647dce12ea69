/-
Reckoner.Ledger.Basic — what is asked of the place where expressions are kept.

A ledger gives each new expression an id and keeps it. The status of an
expression only moves forward: it is started once and ended once, and what has
ended never changes again. A call may be refused; then nothing is recorded.

  1. Refusals
  2. Ledgers
-/
import Reckoner.Expression

namespace Reckoner

/-! ## 1. Refusals -/

/-- A rule of the database that a row would break. -/
inductive Constraint where
  /-- The owner of an expression is a registered user. -/
  | knownOwner
  /-- The result of an expression is a number. -/
  | resultPresent
  /-- No two expressions share an id. -/
  | uniqueId
deriving DecidableEq

/-- The broken rule in words. -/
def Constraint.message : Constraint → String
  | .knownOwner =>
    "error returned from database: (code: 787) FOREIGN KEY constraint failed"
  | .resultPresent =>
    "error returned from database: (code: 1299) NOT NULL constraint failed: expressions.result"
  | .uniqueId =>
    "error returned from database: (code: 1555) UNIQUE constraint failed: expressions.id"

/-- Why a ledger refuses a call. -/
inductive LedgerError where
  /-- The storage did not take the call. -/
  | unavailable (reason : String)
  /-- A rule of the storage forbids the change. -/
  | forbidden (rule : Constraint)
  | notFound (id : Int)
deriving DecidableEq

/-- The refusal in words. -/
def LedgerError.message : LedgerError → String
  | .unavailable reason => "Storage error: " ++ reason
  | .forbidden rule => "Storage error: " ++ rule.message
  | .notFound id => "Expression not found: " ++ Text.integer id

/-! ## 2. Ledgers -/

/-- A formula that is handed in, with who hands it in. -/
structure Submission where
  text : String
  owner : Int
deriving DecidableEq

/-- A place where expressions are kept. -/
class Ledger (σ : Type) where
  /-- Keeps a new expression and gives it an id. -/
  insert : Submission → σ → Except LedgerError Int × σ
  /-- The expression of an id. -/
  get? : Int → σ → Option Expression
  /-- The expressions of an owner, lowest id first. -/
  ownedBy : Int → σ → List Expression
  /-- The expressions that have not ended, lowest id first. -/
  unfinished : σ → Except LedgerError (List Expression) × σ
  /-- Marks a pending expression as started. -/
  start : Int → σ → Except LedgerError Unit × σ
  /-- Records how an expression ended, unless it has ended before. -/
  finish : Int → Outcome → σ → Except LedgerError Unit × σ

/-- The expression of an id, if it belongs to the owner. -/
def Ledger.getOwned? {σ : Type} [Ledger σ] (id owner : Int) (s : σ) : Option Expression :=
  (Ledger.get? id s).filter fun e => e.owner == owner

end Reckoner
