/-
Reckoner.Ledger.Database — users and expressions kept in a relational database.

Both tables number their rows by themselves, with ids greater than any used
before. A statement that would break a rule of a table changes nothing. A
number column keeps no sign on a zero and has no value for `nan`.

  1. Tables
  2. The database
  3. Statements on expressions
  4. The ledger
-/
import Reckoner.Ledger.Basic
import Reckoner.IdMap

namespace Reckoner

/-! ## 1. Tables -/

/-- Rows by id, and the greatest id ever used. -/
structure Table (α : Type) where
  rows : IdMap α := .empty
  lastId : Int := 0
deriving DecidableEq

namespace Table

variable {α : Type}

/-- The id of the next row. -/
def nextId (t : Table α) : Int := t.lastId + 1

/-- The table with a row under an id that it does not have yet. -/
def insert (t : Table α) (id : Int) (row : α) : Table α :=
  ⟨t.rows.insert id row, max t.lastId id⟩

/-- The rows that a condition selects, lowest id first. -/
def select (t : Table α) (p : α → Bool) : List α := t.rows.values.filter p

/-- The number of rows that a condition selects, and the table with those changed. -/
def update (t : Table α) (p : α → Bool) (f : α → α) : Nat × Table α :=
  ((t.select p).length, { t with rows := t.rows.map fun a => if p a then f a else a })

end Table

/-! ## 2. The database -/

/-- A registered user. The password is kept as a digest together with its salt,
both as hexadecimal text. -/
structure User where
  id : Int
  login : String
  passwordHash : String
  salt : String
deriving DecidableEq

/-- The two tables. -/
structure Database where
  users : Table User := {}
  expressions : Table Expression := {}
deriving DecidableEq

/-- The number as a column gives it back, if a column can hold it. -/
def Number.stored? : Number → Option Number
  | .nan => none
  | .finite n m => some (if m.mantissa = 0 then .zero else .finite n m)
  | x => some x

namespace Database

/-! ## 3. Statements on expressions -/

/-- The user of an id is registered. -/
def hasUser (db : Database) (id : Int) : Bool := db.users.rows.contains id

/-- Adds an expression as it is. The rules are checked column by column: the
result, then the id, then the owner. -/
def insertExpression (e : Expression) (db : Database) : Except Constraint Database :=
  match e.result.stored? with
  | none => .error .resultPresent
  | some result =>
    if db.expressions.rows.contains e.id then .error .uniqueId
    else if !db.hasUser e.owner then .error .knownOwner
    else .ok { db with expressions := db.expressions.insert e.id { e with result } }

/-- A change that found no row is an error if there is no such expression. -/
def ensureExists (id : Int) (db : Database) : Except LedgerError Unit :=
  if (db.expressions.select fun e => e.id == id).isEmpty then .error (.notFound id) else .ok ()

/-- Adds a new expression under the next id. -/
def insert (s : Submission) (db : Database) : Except LedgerError Int × Database :=
  let id := db.expressions.nextId
  match db.insertExpression { id, text := s.text, owner := s.owner } with
  | .ok db => (.ok id, db)
  | .error rule => (.error (.forbidden rule), db)

/-- Marks the expression as started where it is pending. -/
def start (id : Int) (db : Database) : Except LedgerError Unit × Database :=
  let (count, expressions) := db.expressions.update
    (fun e => e.id == id && e.status = .pending)
    (fun e => { e with status := .computing })
  let db := { db with expressions }
  (if count = 0 then db.ensureExists id else .ok (), db)

/-- Records the outcome of the expression where it has not ended. -/
def finish (id : Int) (o : Outcome) (db : Database) : Except LedgerError Unit × Database :=
  let isOpen := fun e : Expression => e.id == id && !e.status.isFinal
  match o.result.stored?, db.expressions.select isOpen with
  | _, [] => (db.ensureExists id, db)
  | none, _ => (.error (.forbidden .resultPresent), db)
  | some result, _ =>
    let (_, expressions) := db.expressions.update isOpen
      (fun e => { e with status := o.status, result, error := o.error? })
    (.ok (), { db with expressions })

/-! ## 4. The ledger -/

instance : Ledger Database where
  insert := insert
  get? id db := (db.expressions.select fun e => e.id == id).head?
  ownedBy owner db := db.expressions.select fun e => e.owner == owner
  unfinished db := (.ok (db.expressions.select fun e => !e.status.isFinal), db)
  start := start
  finish := finish

end Database

end Reckoner
