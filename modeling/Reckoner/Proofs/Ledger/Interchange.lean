/-
Reckoner.Proofs.Ledger.Interchange — memory and database reply alike.

A ledger in memory and a table of the database go through the same operations
side by side (`SameTable`): they keep the same rows and have used the same ids.
So every operation has the same reply from both, whatever came before
(`replies_eq`). Two things are asked of the operations: new expressions belong to
registered users, and a result is a number that a column gives back as it is.

The table holds the status of an expression as a word, and each row that is read
goes through its word.

  1. The columns of a row
  2. Operations and replies
  3. Numbers that a column gives back
  4. One operation
  5. Any operations
-/
import Reckoner.Proofs.Ledger.Lawful

namespace Reckoner

/-! ## 1. The columns of a row -/

/-- A row of the table of expressions, column by column. -/
structure Columns where
  id : Int
  expression : String
  status : String
  result : Number
  error : Option String
  userId : Int

namespace Expression

/-- What the columns hold of an expression. -/
def columns (e : Expression) : Columns :=
  ⟨e.id, e.text, e.status.word, e.result, e.error, e.owner⟩

/-- The expression in some columns, unless the word for its status is unknown. -/
def ofColumns (row : Columns) : Except String Expression :=
  match Status.ofWord? row.status with
  | some status => .ok ⟨row.id, row.expression, status, row.result, row.error, row.userId⟩
  | none => .error (Status.unknownMessage row.status)

/-- An expression as it is read from its columns. -/
def reread (e : Expression) : Except String Expression := ofColumns e.columns

/-- Every row is read back from its columns. -/
theorem reread_eq_ok : reread = .ok := by
  funext e
  simp [reread, ofColumns, columns]

end Expression

/-! ## 2. Operations and replies -/

namespace Ledger

/-- What is asked of a ledger. -/
inductive Operation where
  | insert (sub : Submission)
  | get (id : Int)
  | getOwned (id owner : Int)
  | ownedBy (owner : Int)
  | unfinished
  | start (id : Int)
  | finish (id : Int) (o : Outcome)

/-- What a ledger replies. -/
inductive Reply where
  | kept (id : Int)
  | row (found : Option Expression)
  | rows (found : List Expression)
  | recorded
  | refused (err : LedgerError)
  /-- A row has been found that cannot be read. -/
  | unreadable (message : String)
deriving DecidableEq

/-- The reply to a call that may be refused. -/
def Reply.ofAnswer {α : Type} (reply : α → Reply) : Except LedgerError α → Reply
  | .ok a => reply a
  | .error err => .refused err

/-- The reply that tells what has been read. -/
def Reply.ofRead {α : Type} (reply : α → Reply) : Except String α → Reply
  | .ok a => reply a
  | .error message => .unreadable message

variable {σ : Type} [Ledger σ]

/-- Carries out an operation on a ledger, each of whose rows is read by `read`. -/
def perform (read : Expression → Except String Expression) (s : σ) : Operation → Reply × σ
  | .insert sub =>
    let (answer, s) := insert sub s
    (.ofAnswer .kept answer, s)
  | .get id => (.ofRead .row ((get? id s).mapM read), s)
  | .getOwned id owner => (.ofRead .row ((getOwned? id owner s).mapM read), s)
  | .ownedBy owner => (.ofRead .rows ((ownedBy owner s).mapM read), s)
  | .unfinished =>
    match unfinished s with
    | (.ok es, s) => (.ofRead .rows (es.mapM read), s)
    | (.error err, s) => (.refused err, s)
  | .start id =>
    let (answer, s) := start id s
    (.ofAnswer (fun _ => .recorded) answer, s)
  | .finish id o =>
    let (answer, s) := finish id o s
    (.ofAnswer (fun _ => .recorded) answer, s)

/-- The replies to some operations, one after the other. -/
def replies (read : Expression → Except String Expression) : List Operation → σ → List Reply
  | [], _ => []
  | op :: ops, s => (perform read s op).1 :: replies read ops (perform read s op).2

end Ledger

/-! ## 3. Numbers that a column gives back -/

/-- The number is neither `nan` nor a negative zero. -/
def Number.IsStorable (x : Number) : Prop := x ≠ .nan ∧ x ≠ .finite true .zero

instance (x : Number) : Decidable x.IsStorable := inferInstanceAs (Decidable (_ ∧ _))

theorem Magnitude.eq_zero_of_mantissa {m : Magnitude} (h : m.mantissa = 0) : m = .zero := by
  rw [← quanta_eq_zero_iff, quanta, h, Nat.zero_mul]

/-- A column gives back exactly the numbers that it can hold, zero without a sign. -/
theorem Number.stored?_eq_self_iff (x : Number) : x.stored? = some x ↔ x.IsStorable := by
  cases x with
  | nan => simp [stored?, IsStorable]
  | infinite n => simp [stored?, IsStorable]
  | finite n m =>
    by_cases hm : m.mantissa = 0
    · have hzero := Magnitude.eq_zero_of_mantissa hm
      subst hzero
      cases n <;> simp [stored?, IsStorable, hm, zero]
    · have hne : m ≠ .zero := by
        rintro rfl
        exact hm rfl
      simp [stored?, IsStorable, hm, hne]

/-! ## 4. One operation -/

namespace Ledger

/-- The operation names one of these users, and a result that a column gives back. -/
def Operation.Fits (users : Table User) : Operation → Prop
  | .insert sub => users.rows.contains sub.owner = true
  | .finish _ o => o.result.IsStorable
  | _ => True

instance (users : Table User) : ∀ op : Operation, Decidable (op.Fits users)
  | .insert sub => inferInstanceAs (Decidable (users.rows.contains sub.owner = true))
  | .finish _ o => inferInstanceAs (Decidable o.result.IsStorable)
  | .get _ | .getOwned _ _ | .ownedBy _ | .unfinished | .start _ => .isTrue trivial

/-- A memory and a database with these users keep the same rows and have used the same
ids. -/
structure SameTable (users : Table User) (m : MemoryLedger) (db : Database) : Prop where
  users : db.users = users
  rows : db.expressions.rows = m.rows
  lastId : db.expressions.lastId = m.lastId
  inOrder : RowsInOrder m.rows m.lastId

namespace SameTable

variable {users : Table User} {m : MemoryLedger} {db : Database}

theorem start_empty (h : db.expressions = {}) : SameTable db.users {} db := by
  refine ⟨rfl, ?_, ?_, fun _ _ hget => nomatch hget⟩
  · rw [h]
  · rw [h]

theorem database_inOrder (h : SameTable users m db) : db.InOrder := by
  rw [Database.InOrder, h.rows, h.lastId]
  exact h.inOrder

theorem get?_eq (h : SameTable users m db) (id : Int) : get? id db = get? id m := by
  rw [Database.get?_eq h.database_inOrder, h.rows]
  rfl

theorem select_eq (h : SameTable users m db) (p : Expression → Bool) :
    db.expressions.select p = m.rows.values.filter p := by
  rw [Table.select, h.rows]

/-- A new expression goes under the same id. -/
theorem insert (h : SameTable users m db) {sub : Submission}
    (howner : users.rows.contains sub.owner = true) :
    (db.insert sub).1 = (m.insert sub).1 ∧
      SameTable users (m.insert sub).2 (db.insert sub).2 := by
  have hregistered : db.hasUser sub.owner = true := by rw [Database.hasUser, h.users, howner]
  rw [Database.insert_eq h.database_inOrder, if_pos hregistered, Table.nextId, h.lastId]
  refine ⟨rfl, h.users, ?_, ?_, ?_⟩
  · show db.expressions.rows.insert _ _ = m.rows.insert _ _
    rw [h.rows]
    rfl
  · show max db.expressions.lastId (m.lastId + 1) = m.lastId + 1
    rw [h.lastId]
    omega
  · exact h.inOrder.insert rfl (Int.le_refl _) (Int.le_add_of_nonneg_right (by decide))

/-- The statement that changes a row where it meets a condition does what a change in
memory does to every row. -/
theorem change (h : SameTable users m db) (id : Int) {p : Expression → Bool}
    {f g : Expression → Expression} (hf : ∀ e, (f e).id = e.id)
    (hfg : ∀ e, g e = if p e then f e else e) :
    SameTable users (m.change id g).2 (db.changeOne id p f) := by
  have hid : ∀ e, (g e).id = e.id := by
    intro e
    rw [hfg]
    split
    · exact hf e
    · rfl
  have hget : ∀ j, (db.changeOne id p f).expressions.rows.get? j =
      (m.change id g).2.rows.get? j := by
    intro j
    rw [Database.get?_changeOne h.database_inOrder, h.rows, MemoryLedger.change_eq]
    cases hrow : m.rows.get? id with
    | none =>
      by_cases hj : j = id
      · simp [hj, hrow]
      · simp [hj]
    | some e => simp [IdMap.get?_insert, hfg]
  have horder : RowsInOrder (m.change id g).2.rows (m.change id g).2.lastId := by
    cases hcall : m.change id g with
    | mk answer m' =>
      cases answer with
      | ok _ => exact (MemoryLedger.change_ok hid h.inOrder hcall).1
      | error err => exact (MemoryLedger.change_error h.inOrder hcall).1
  refine ⟨h.users, IdMap.ext_get? hget, ?_, horder⟩
  show db.expressions.lastId = _
  rw [h.lastId, MemoryLedger.change_eq]
  split <;> rfl

/-- The answer to a change says whether there is such a row. -/
theorem change_answer (h : SameTable users m db) (id : Int) (g : Expression → Expression) :
    (m.change id g).1 =
      if (db.expressions.rows.get? id).isSome then .ok () else .error (.notFound id) := by
  rw [h.rows, MemoryLedger.change_eq]
  cases m.rows.get? id <;> rfl

theorem start (h : SameTable users m db) (id : Int) :
    (db.start id).1 = (m.change id Expression.started).1 ∧
      SameTable users (m.change id Expression.started).2 (db.start id).2 := by
  rw [Database.start_eq h.database_inOrder]
  refine ⟨(h.change_answer id _).symm, h.change id (fun _ => rfl) fun e => ?_⟩
  simp [Expression.started]

/-- A row that has ended stays as it is on both sides, and no row that has not ended is
refused. -/
theorem finish (h : SameTable users m db) (id : Int) {o : Outcome} (hresult : o.result.IsStorable) :
    (db.finish id o).1 = (m.change id fun e => e.ended o).1 ∧
      SameTable users (m.change id fun e => e.ended o).2 (db.finish id o).2 := by
  have horder := h.database_inOrder
  have hended : ∀ e : Expression, e.ended o = if (!e.status.isFinal) = true then
      { e with status := o.status, result := o.result, error := o.error? } else e := by
    intro e
    cases hfinal : e.status.isFinal <;> simp [Expression.ended, Expression.isFinished, hfinal]
  have hchange := h.change id (p := fun e => !e.status.isFinal)
    (f := fun e => { e with status := o.status, result := o.result, error := o.error? })
    (fun _ => rfl) hended
  rw [h.change_answer]
  by_cases hnil : (db.expressions.select fun e => e.id == id && !e.status.isFinal) = []
  · -- No row is selected, so the change leaves every row as it was.
    have hsame : ∀ e, db.expressions.rows.get? id = some e → e.ended o = e := by
      intro e he
      rw [hended, (Database.select_eq_nil_iff horder id _).1 hnil e he]
      rfl
    rw [Database.finish_of_select_eq_nil hnil, Database.ensureExists_eq horder]
    refine ⟨rfl, ?_⟩
    rw [MemoryLedger.change_eq]
    cases hrow : m.rows.get? id with
    | none => exact h
    | some e =>
      have hinsert : m.rows.insert id (e.ended o) = m.rows := by
        refine IdMap.ext_get? fun j => ?_
        rw [IdMap.get?_insert, hsame e (by rw [h.rows, hrow])]
        split
        · next hj => rw [hj, hrow]
        · rfl
      simp only [hinsert]
      exact h
  · obtain ⟨e, he, -⟩ := Database.exists_of_select_ne_nil horder id _ hnil
    rw [Database.finish_of_select_ne_nil hnil, (Number.stored?_eq_self_iff _).2 hresult, he]
    exact ⟨rfl, hchange⟩

/-- Rows that are the same are read the same. -/
theorem perform (h : SameTable users m db) {op : Operation} (hfits : op.Fits users) :
    (Ledger.perform .ok db op).1 = (Ledger.perform .ok m op).1 ∧
      SameTable users (Ledger.perform .ok m op).2 (Ledger.perform .ok db op).2 := by
  cases op with
  | insert sub =>
    obtain ⟨hanswer, hsame⟩ := h.insert hfits
    exact ⟨congrArg (Reply.ofAnswer .kept) hanswer, hsame⟩
  | start id =>
    obtain ⟨hanswer, hsame⟩ := h.start id
    exact ⟨congrArg (Reply.ofAnswer fun _ => .recorded) hanswer, hsame⟩
  | finish id o =>
    obtain ⟨hanswer, hsame⟩ := h.finish id hfits
    exact ⟨congrArg (Reply.ofAnswer fun _ => .recorded) hanswer, hsame⟩
  | get id => exact ⟨by simp only [Ledger.perform, h.get?_eq], h⟩
  | getOwned id owner => exact ⟨by simp only [Ledger.perform, getOwned?, h.get?_eq], h⟩
  | ownedBy owner =>
    refine ⟨?_, h⟩
    have hrows : Ledger.ownedBy owner db = Ledger.ownedBy owner m := h.select_eq _
    simp only [Ledger.perform, hrows]
  | unfinished =>
    refine ⟨?_, h⟩
    exact congrArg (fun es => Reply.ofRead .rows (es.mapM .ok)) (h.select_eq _)

end SameTable

/-! ## 5. Any operations -/

theorem replies_eq_of_sameTable {users : Table User} {m : MemoryLedger} {db : Database}
    (h : SameTable users m db) {ops : List Operation} (hfits : ∀ op ∈ ops, op.Fits users) :
    replies .ok ops db = replies .ok ops m := by
  induction ops generalizing m db with
  | nil => rfl
  | cons op ops ih =>
    obtain ⟨hreply, hnext⟩ := h.perform (hfits op List.mem_cons_self)
    rw [replies, replies, hreply, ih hnext fun op' hop' => hfits op' (List.mem_cons_of_mem _ hop')]

/-- What is read is never a refusal. -/
theorem Reply.ofRead_ne_refused {α : Type} {reply : α → Reply} {err : LedgerError}
    (hreply : ∀ a, reply a ≠ .refused err) (answer : Except String α) :
    ofRead reply answer ≠ .refused err := by
  cases answer with
  | ok a => exact hreply a
  | error message => exact nofun

/-- A memory refuses nothing but to change a row that is not there. -/
theorem exists_notFound_of_perform {m : MemoryLedger} {op : Operation} {err : LedgerError}
    (h : (perform .ok m op).1 = .refused err) : ∃ id, err = .notFound id := by
  have hchange : ∀ id g, Reply.ofAnswer (fun _ => .recorded) (m.change id g).1 = .refused err →
      ∃ id, err = .notFound id := by
    intro id g hreply
    rw [MemoryLedger.change_eq] at hreply
    cases hrow : m.rows.get? id <;> simp [hrow, Reply.ofAnswer] at hreply
    exact ⟨id, hreply.symm⟩
  cases op with
  | start id => exact hchange id _ h
  | finish id o => exact hchange id _ h
  | insert sub => cases h
  | get id => exact absurd h (Reply.ofRead_ne_refused nofun _)
  | getOwned id owner => exact absurd h (Reply.ofRead_ne_refused nofun _)
  | ownedBy owner => exact absurd h (Reply.ofRead_ne_refused nofun _)
  | unfinished => exact absurd h (Reply.ofRead_ne_refused nofun _)

theorem exists_notFound_of_mem_replies {ops : List Operation} {m : MemoryLedger} {err : LedgerError}
    (h : .refused err ∈ replies .ok ops m) : ∃ id, err = .notFound id := by
  induction ops generalizing m with
  | nil => cases h
  | cons op ops ih =>
    rw [replies, List.mem_cons] at h
    rcases h with h | h
    · exact exists_notFound_of_perform h.symm
    · exact ih h

/-- A memory and a database, both without expressions, reply alike to any operations
that name registered users and results that a column gives back. The only refusal is
that there is no such expression. -/
theorem memory_and_database_reply_alike (db : Database) (hempty : db.expressions = {})
    (ops : List Operation) (hfits : ∀ op ∈ ops, op.Fits db.users) :
    replies Expression.reread ops db = replies .ok ops ({} : MemoryLedger) ∧
      ∀ err, .refused err ∈ replies Expression.reread ops db → ∃ id, err = .notFound id := by
  have halike : replies Expression.reread ops db = replies .ok ops ({} : MemoryLedger) := by
    rw [Expression.reread_eq_ok]
    exact replies_eq_of_sameTable (.start_empty hempty) hfits
  refine ⟨halike, fun err herr => ?_⟩
  rw [halike] at herr
  exact exists_notFound_of_mem_replies herr

/-- Two users, a missing id, and an expression that is ended twice. -/
theorem memory_and_database_reply_alike_twice :
    let users := (({} : Table User).insert 1 ⟨1, "ann", "", ""⟩).insert 2 ⟨2, "bob", "", ""⟩
    let ops : List Operation := [.insert ⟨"6/4", 1⟩, .insert ⟨"1/0", 2⟩, .start 2, .start 3,
      .finish 1 (.done (.ofRatio false 3 2)), .finish 1 (.failed .zero "late"),
      .finish 2 (.failed .zero "division by zero"), .unfinished, .ownedBy 2, .getOwned 1 2, .get 1]
    let db : Database := { users }
    replies Expression.reread ops db =
      [.kept 1, .kept 2, .recorded, .refused (.notFound 3), .recorded, .recorded, .recorded,
        .rows [], .rows [⟨2, "1/0", .error, .zero, some "division by zero", 2⟩], .row none,
        .row (some ⟨1, "6/4", .done, .ofRatio false 3 2, none, 1⟩)] := by
  intro users ops db
  have hfits : ∀ op ∈ ops, op.Fits db.users := by decide +kernel
  rw [(memory_and_database_reply_alike db rfl ops hfits).1]
  decide +kernel

end Ledger

end Reckoner
