/-
Reckoner.Proofs.Ledger.Lawful — what a dispatcher relies on in a ledger.

The laws are said in terms of look-up alone. A call that is taken changes one
row at most, and a call that is refused changes none. A ledger may keep a number
in its own way (`keep`): the database has no signed zero.

All three ledgers are lawful, and a ledger whose calls may be refused is as
lawful as the one behind it.

  1. The laws
  2. Expressions in memory
  3. The database
  4. A ledger whose calls may be refused
  5. The order of the unfinished rows
-/
import Reckoner.Ledger.Database
import Reckoner.Ledger.Faulty
import Reckoner.Ledger.Memory
import Reckoner.Proofs.IdMap

namespace Reckoner

/-! ## 1. The laws -/

/-- The expression once it has ended, with its number as a ledger keeps it; one
that has ended before stays as it is. -/
def Expression.endedWith (keep : Number → Number) (e : Expression) (o : Outcome) : Expression :=
  if e.isFinished then e
  else { e with status := o.status, result := keep o.result, error := o.error? }

/-- The row of a new expression. -/
def Submission.row (sub : Submission) (id : Int) : Expression :=
  { id, text := sub.text, owner := sub.owner }

namespace Ledger

variable {σ : Type} [Ledger σ]

/-- Every row is as before. -/
def SameRows (s s' : σ) : Prop := ∀ id, get? id s' = get? id s

/-- The row of one id is this expression; every other row is as before. -/
def SetsRow (id : Int) (e : Expression) (s s' : σ) : Prop :=
  ∀ j, get? j s' = if j = id then some e else get? j s

end Ledger

/-- A ledger that does what a dispatcher relies on. -/
class LawfulLedger (σ : Type) [Ledger σ] where
  Valid : σ → Prop
  keep : Number → Number
  keep_zero : keep .zero = .zero
  get?_id {s : σ} {id : Int} {e : Expression} :
    Valid s → Ledger.get? id s = some e → e.id = id
  insert_ok {s s' : σ} {sub : Submission} {id : Int} :
    Valid s → Ledger.insert sub s = (.ok id, s') → Valid s' ∧ Ledger.get? id s = none ∧
      Ledger.SetsRow id (sub.row id) s s'
  insert_error {s s' : σ} {sub : Submission} {err : LedgerError} :
    Valid s → Ledger.insert sub s = (.error err, s') → Valid s' ∧ Ledger.SameRows s s'
  unfinished_ok {s s' : σ} {es : List Expression} :
    Valid s → Ledger.unfinished s = (.ok es, s') → Valid s' ∧ Ledger.SameRows s s' ∧
      (es.map (·.id)).Nodup ∧
      ∀ e, e ∈ es ↔ Ledger.get? e.id s = some e ∧ e.isFinished = false
  unfinished_error {s s' : σ} {err : LedgerError} :
    Valid s → Ledger.unfinished s = (.error err, s') → Valid s' ∧ Ledger.SameRows s s'
  start_ok {s s' : σ} {id : Int} :
    Valid s → Ledger.start id s = (.ok (), s') → Valid s' ∧
      ∃ e, Ledger.get? id s = some e ∧ Ledger.SetsRow id e.started s s'
  start_error {s s' : σ} {id : Int} {err : LedgerError} :
    Valid s → Ledger.start id s = (.error err, s') → Valid s' ∧ Ledger.SameRows s s'
  finish_ok {s s' : σ} {id : Int} {o : Outcome} :
    Valid s → Ledger.finish id o s = (.ok (), s') → Valid s' ∧
      ∃ e, Ledger.get? id s = some e ∧ Ledger.SetsRow id (e.endedWith keep o) s s'
  finish_error {s s' : σ} {id : Int} {o : Outcome} {err : LedgerError} :
    Valid s → Ledger.finish id o s = (.error err, s') → Valid s' ∧ Ledger.SameRows s s'

/-! ## 2. Expressions in memory -/

/-- Rows stand under their own ids, none of them above the greatest id ever used. -/
def RowsInOrder (rows : IdMap Expression) (lastId : Int) : Prop :=
  ∀ id e, rows.get? id = some e → e.id = id ∧ id ≤ lastId

namespace RowsInOrder

variable {rows : IdMap Expression} {lastId : Int}

theorem get?_next (h : RowsInOrder rows lastId) : rows.get? (lastId + 1) = none := by
  rw [Option.eq_none_iff_forall_ne_some]
  intro e he
  have := (h _ e he).2
  omega

theorem insert (h : RowsInOrder rows lastId) {id lastId' : Int} {e : Expression} (hid : e.id = id)
    (hle : id ≤ lastId') (hlast : lastId ≤ lastId') : RowsInOrder (rows.insert id e) lastId' := by
  intro j e' he'
  rw [IdMap.get?_insert] at he'
  split at he'
  · next hj =>
    cases he'
    exact ⟨hid.trans hj.symm, by omega⟩
  · obtain ⟨hj, hlow⟩ := h j e' he'
    exact ⟨hj, by omega⟩

/-- The rows that a condition selects, by their own ids. -/
theorem mem_filter_values (h : RowsInOrder rows lastId) (p : Expression → Bool) (e : Expression) :
    e ∈ rows.values.filter p ↔ rows.get? e.id = some e ∧ p e = true := by
  rw [List.mem_filter, IdMap.mem_values_iff]
  constructor
  · rintro ⟨⟨id, hget⟩, hp⟩
    rw [(h id e hget).1]
    exact ⟨hget, hp⟩
  · rintro ⟨hget, hp⟩
    exact ⟨⟨e.id, hget⟩, hp⟩

theorem pairwise_filter_values (h : RowsInOrder rows lastId) (p : Expression → Bool) :
    (rows.values.filter p).Pairwise fun e f => e.id < f.id := by
  have hkeys : rows.values.map (·.id) = rows.keys := by
    rw [IdMap.keys, IdMap.values, List.map_map]
    refine List.map_congr_left fun f hf => ?_
    exact (h f.1 f.2 ((IdMap.mem_entries_iff _ _ _).1 hf)).1
  have hpairwise := rows.pairwise_keys
  rw [← hkeys] at hpairwise
  exact (List.pairwise_map.1 hpairwise).filter p

theorem nodup_filter_values (h : RowsInOrder rows lastId) (p : Expression → Bool) :
    ((rows.values.filter p).map (·.id)).Nodup :=
  List.pairwise_map.2 ((h.pairwise_filter_values p).imp Int.ne_of_lt)

end RowsInOrder

namespace MemoryLedger

theorem change_eq (id : Int) (f : Expression → Expression) (m : MemoryLedger) :
    m.change id f = match m.rows.get? id with
      | some e => (.ok (), ⟨m.rows.insert id (f e), m.lastId⟩)
      | none => (.error (.notFound id), m) := rfl

/-- A change that keeps ids either sets one row or is refused. -/
theorem change_ok {id : Int} {f : Expression → Expression} {m m' : MemoryLedger}
    (hf : ∀ e, (f e).id = e.id) (h : RowsInOrder m.rows m.lastId)
    (hc : m.change id f = (.ok (), m')) :
    RowsInOrder m'.rows m'.lastId ∧
      ∃ e, Ledger.get? id m = some e ∧ Ledger.SetsRow id (f e) m m' := by
  rw [change_eq] at hc
  split at hc
  · next e he =>
    cases hc
    obtain ⟨hid, hle⟩ := h id e he
    refine ⟨h.insert ((hf e).trans hid) hle (Int.le_refl _), e, he, fun j => ?_⟩
    exact IdMap.get?_insert _ _ _ _
  · cases hc

theorem change_error {id : Int} {f : Expression → Expression} {m m' : MemoryLedger}
    {err : LedgerError} (h : RowsInOrder m.rows m.lastId)
    (hc : m.change id f = (.error err, m')) :
    RowsInOrder m'.rows m'.lastId ∧ Ledger.SameRows m m' := by
  rw [change_eq] at hc
  split at hc
  · cases hc
  · cases hc
    exact ⟨h, fun _ => rfl⟩

/-- Any row may be put into a ledger as it is. -/
theorem restore_inOrder {m : MemoryLedger} (h : RowsInOrder m.rows m.lastId) (e : Expression) :
    RowsInOrder (m.restore e).rows (m.restore e).lastId :=
  h.insert rfl (Int.le_max_right _ _) (Int.le_max_left _ _)

theorem id_started (e : Expression) : e.started.id = e.id := by
  rw [Expression.started]
  split <;> rfl

theorem id_ended (e : Expression) (o : Outcome) : (e.ended o).id = e.id := by
  rw [Expression.ended]
  split <;> rfl

instance : LawfulLedger MemoryLedger where
  Valid m := RowsInOrder m.rows m.lastId
  keep := id
  keep_zero := rfl
  get?_id h hget := (h _ _ hget).1
  insert_ok h hc := by
    cases hc
    exact ⟨h.insert rfl (Int.le_refl _) (Int.le_add_of_nonneg_right (by decide)), h.get?_next,
      fun _ => IdMap.get?_insert _ _ _ _⟩
  insert_error _ hc := by cases hc
  unfinished_ok h hc := by
    cases hc
    refine ⟨h, fun _ => rfl, h.nodup_filter_values _, fun e => ?_⟩
    rw [h.mem_filter_values, Bool.not_eq_eq_eq_not, Bool.not_true]
    rfl
  unfinished_error _ hc := by cases hc
  start_ok h hc := change_ok id_started h hc
  start_error h hc := change_error h hc
  finish_ok h hc := change_ok (fun e => id_ended e _) h hc
  finish_error h hc := change_error h hc

end MemoryLedger

/-! ## 3. The database -/

/-- The number as a database gives it back; one that it cannot hold it never takes. -/
def Number.kept (x : Number) : Number := x.stored?.getD x

namespace Database

/-- The rows of expressions are in order. -/
def InOrder (db : Database) : Prop := RowsInOrder db.expressions.rows db.expressions.lastId

theorem get?_eq {db : Database} (h : db.InOrder) (id : Int) :
    Ledger.get? id db = db.expressions.rows.get? id := by
  show (db.expressions.rows.values.filter fun e => e.id == id).head? = _
  rw [List.head?_filter]
  exact IdMap.find?_values (fun j e he => (h j e he).1) id

theorem ensureExists_eq {db : Database} (h : db.InOrder) (id : Int) :
    db.ensureExists id =
      if (db.expressions.rows.get? id).isSome then .ok () else .error (.notFound id) := by
  rw [ensureExists, ← get?_eq h]
  show (if (db.expressions.select fun e => e.id == id).isEmpty = true then _ else _) =
    if (db.expressions.select fun e => e.id == id).head?.isSome then _ else _
  cases db.expressions.select fun e => e.id == id <;> simp

/-- The database after a change of the one expression of an id, where it meets a condition. -/
def changeOne (db : Database) (id : Int) (p : Expression → Bool) (f : Expression → Expression) :
    Database :=
  { db with expressions := (db.expressions.update (fun e => e.id == id && p e) f).2 }

section changeOne

variable {db : Database} (h : db.InOrder) (id : Int) (p : Expression → Bool)
  {f : Expression → Expression} (hf : ∀ e, (f e).id = e.id)
include h

theorem get?_changeOne (j : Int) :
    (db.changeOne id p f).expressions.rows.get? j =
      if j = id then (db.expressions.rows.get? id).map fun e => if p e then f e else e
      else db.expressions.rows.get? j := by
  show (db.expressions.rows.map _).get? j = _
  rw [IdMap.get?_map]
  by_cases hj : j = id
  · subst hj
    rw [if_pos rfl]
    cases hget : db.expressions.rows.get? j with
    | none => rfl
    | some e => simp [(h j e hget).1]
  · rw [if_neg hj]
    cases hget : db.expressions.rows.get? j with
    | none => rfl
    | some e => simp [(h j e hget).1, hj]

include hf in
theorem InOrder.changeOne : (db.changeOne id p f).InOrder := by
  intro j e he
  rw [get?_changeOne h] at he
  split at he
  · next hj =>
    subst hj
    obtain ⟨e', he', rfl⟩ := Option.map_eq_some_iff.1 he
    obtain ⟨hid, hle⟩ := h j e' he'
    refine ⟨?_, hle⟩
    split
    · rw [hf, hid]
    · exact hid
  · exact h j e he

theorem select_eq_nil_iff :
    (db.expressions.select fun e => e.id == id && p e) = [] ↔
      ∀ e, db.expressions.rows.get? id = some e → p e = false := by
  rw [Table.select, List.eq_nil_iff_forall_not_mem]
  simp only [RowsInOrder.mem_filter_values h, Bool.and_eq_true, beq_iff_eq, not_and,
    Bool.not_eq_true]
  constructor
  · intro hnone e he
    have hid := (h id e he).1
    exact hnone e (by rw [hid, he]) hid
  · intro hnone e he hid
    exact hnone e (by rw [← hid, he])

theorem exists_of_select_ne_nil
    (hne : (db.expressions.select fun e => e.id == id && p e) ≠ []) :
    ∃ e, db.expressions.rows.get? id = some e ∧ p e = true := by
  obtain ⟨e, es, hes⟩ := List.exists_cons_of_ne_nil hne
  have hmem : e ∈ db.expressions.select fun e => e.id == id && p e := by
    rw [hes]
    exact List.mem_cons_self
  rw [Table.select, RowsInOrder.mem_filter_values h, Bool.and_eq_true, beq_iff_eq] at hmem
  obtain ⟨hget, hid, hp⟩ := hmem
  exact ⟨e, hid ▸ hget, hp⟩

include hf in
/-- Where there is such an expression, the change sets its row. -/
theorem setsRow_changeOne {e : Expression} (he : db.expressions.rows.get? id = some e) :
    Ledger.SetsRow id (if p e then f e else e) db (db.changeOne id p f) := by
  intro j
  rw [get?_eq (h.changeOne id p hf), get?_eq h, get?_changeOne h, he]
  rfl

end changeOne

theorem start_eq {db : Database} (h : db.InOrder) (id : Int) :
    db.start id =
      (if (db.expressions.rows.get? id).isSome then .ok () else .error (.notFound id),
        db.changeOne id (fun e => decide (e.status = .pending))
          fun e => { e with status := .computing }) := by
  have horder := h.changeOne id (fun e => decide (e.status = .pending))
    (f := fun e => { e with status := .computing }) fun _ => rfl
  have hsome : ((db.changeOne id (fun e => decide (e.status = .pending))
      fun e => { e with status := .computing }).expressions.rows.get? id).isSome =
      (db.expressions.rows.get? id).isSome := by
    rw [get?_changeOne h, if_pos rfl, Option.isSome_map]
  show (if (db.expressions.select _).length = 0 then _ else _, _) = _
  congr 1
  split
  · rw [← hsome]
    exact ensureExists_eq horder id
  · next hcount =>
    obtain ⟨e, he, -⟩ := exists_of_select_ne_nil h id _ (fun hnil => hcount (by rw [hnil]; rfl))
    rw [he]
    rfl

/-- Where no open expression has the id, nothing is recorded. -/
theorem finish_of_select_eq_nil {db : Database} {id : Int}
    (hnil : (db.expressions.select fun e => e.id == id && !e.status.isFinal) = []) (o : Outcome) :
    db.finish id o = (db.ensureExists id, db) := by
  rw [finish]
  simp only [hnil]

theorem finish_of_select_ne_nil {db : Database} {id : Int}
    (hne : (db.expressions.select fun e => e.id == id && !e.status.isFinal) ≠ []) (o : Outcome) :
    db.finish id o = match o.result.stored? with
      | none => (.error (.forbidden .resultPresent), db)
      | some result => (.ok (), db.changeOne id (fun e => !e.status.isFinal)
          fun e => { e with status := o.status, result, error := o.error? }) := by
  obtain ⟨e, es, hes⟩ := List.exists_cons_of_ne_nil hne
  rw [finish]
  simp only [hes]
  cases o.result.stored? <;> rfl

/-- The database with one more expression. -/
def withRow (db : Database) (e : Expression) : Database :=
  { db with expressions := db.expressions.insert e.id e }

theorem insert_eq {db : Database} (h : db.InOrder) (sub : Submission) :
    db.insert sub =
      if db.hasUser sub.owner then
        (.ok db.expressions.nextId, db.withRow (sub.row db.expressions.nextId))
      else (.error (.forbidden .knownOwner), db) := by
  have hfresh : db.expressions.rows.contains db.expressions.nextId = false := by
    rw [IdMap.contains, Table.nextId, h.get?_next]
    rfl
  have hzero : Number.zero.stored? = some .zero := by decide
  simp only [insert, insertExpression, hzero, hfresh, Bool.false_eq_true, if_false]
  cases db.hasUser sub.owner <;> rfl

/-- A new expression is kept under a fresh id. -/
theorem insert_ok {db db' : Database} {sub : Submission} {id : Int} (h : db.InOrder)
    (hc : db.insert sub = (.ok id, db')) : db'.InOrder ∧ Ledger.get? id db = none ∧
      Ledger.SetsRow id (sub.row id) db db' := by
  rw [insert_eq h] at hc
  split at hc
  · cases hc
    have horder : (db.withRow (sub.row db.expressions.nextId)).InOrder :=
      RowsInOrder.insert h rfl (Int.le_max_right _ _) (Int.le_max_left _ _)
    refine ⟨horder, by rw [get?_eq h]; exact h.get?_next, fun j => ?_⟩
    rw [get?_eq horder, get?_eq h]
    exact IdMap.get?_insert _ _ _ _
  · cases hc

theorem insert_error {db db' : Database} {sub : Submission} {err : LedgerError} (h : db.InOrder)
    (hc : db.insert sub = (.error err, db')) : db'.InOrder ∧ Ledger.SameRows db db' := by
  rw [insert_eq h] at hc
  split at hc
  · cases hc
  · cases hc
    exact ⟨h, fun _ => rfl⟩

theorem start_ok {db db' : Database} {id : Int} (h : db.InOrder)
    (hc : db.start id = (.ok (), db')) : db'.InOrder ∧
      ∃ e, Ledger.get? id db = some e ∧ Ledger.SetsRow id e.started db db' := by
  rw [start_eq h] at hc
  split at hc
  · next hsome =>
    cases hc
    obtain ⟨e, he⟩ := Option.isSome_iff_exists.1 hsome
    refine ⟨h.changeOne id _ fun _ => rfl, e, by rw [get?_eq h, he], ?_⟩
    have hsets := setsRow_changeOne h id (fun e => decide (e.status = .pending))
      (f := fun e => { e with status := .computing }) (fun _ => rfl) he
    simpa [Expression.started] using hsets
  · cases hc

theorem start_error {db db' : Database} {id : Int} {err : LedgerError} (h : db.InOrder)
    (hc : db.start id = (.error err, db')) : db'.InOrder ∧ Ledger.SameRows db db' := by
  rw [start_eq h] at hc
  split at hc
  · cases hc
  · next hnone =>
    cases hc
    have hnone' : db.expressions.rows.get? id = none := by
      rwa [Bool.not_eq_true, Option.isSome_eq_false_iff, Option.isNone_iff_eq_none] at hnone
    have horder := h.changeOne id (fun e => decide (e.status = .pending))
      (f := fun e => { e with status := .computing }) fun _ => rfl
    refine ⟨horder, fun j => ?_⟩
    rw [get?_eq horder, get?_eq h, get?_changeOne h]
    split
    · next hj => rw [hj, hnone']; rfl
    · rfl

theorem finish_ok {db db' : Database} {id : Int} {o : Outcome} (h : db.InOrder)
    (hc : db.finish id o = (.ok (), db')) : db'.InOrder ∧
      ∃ e, Ledger.get? id db = some e ∧
        Ledger.SetsRow id (e.endedWith Number.kept o) db db' := by
  by_cases hnil : (db.expressions.select fun e => e.id == id && !e.status.isFinal) = []
  · rw [finish_of_select_eq_nil hnil, ensureExists_eq h] at hc
    split at hc
    · next hsome =>
      cases hc
      obtain ⟨e, he⟩ := Option.isSome_iff_exists.1 hsome
      have hfinal := (select_eq_nil_iff h id _).1 hnil e he
      rw [Bool.not_eq_eq_eq_not, Bool.not_false] at hfinal
      refine ⟨h, e, by rw [get?_eq h, he], fun j => ?_⟩
      rw [Expression.endedWith, Expression.isFinished, if_pos hfinal, get?_eq h]
      split
      · next hj => rw [hj, he]
      · rfl
    · cases hc
  · rw [finish_of_select_ne_nil hnil] at hc
    obtain ⟨e, he, hopen⟩ := exists_of_select_ne_nil h id _ hnil
    cases hstored : o.result.stored? with
    | none =>
      rw [hstored] at hc
      cases hc
    | some result =>
      rw [hstored] at hc
      cases hc
      refine ⟨h.changeOne id _ fun _ => rfl, e, by rw [get?_eq h, he], ?_⟩
      have hsets := setsRow_changeOne h id (fun e => !e.status.isFinal)
        (f := fun e => { e with status := o.status, result, error := o.error? }) (fun _ => rfl) he
      rw [if_pos hopen] at hsets
      rw [Bool.not_eq_eq_eq_not, Bool.not_true] at hopen
      have hkept : o.result.kept = result := by rw [Number.kept, hstored]; rfl
      rwa [Expression.endedWith, Expression.isFinished, hopen, if_neg Bool.false_ne_true, hkept]

theorem finish_error {db db' : Database} {id : Int} {o : Outcome} {err : LedgerError}
    (h : db.InOrder) (hc : db.finish id o = (.error err, db')) :
    db'.InOrder ∧ Ledger.SameRows db db' := by
  by_cases hnil : (db.expressions.select fun e => e.id == id && !e.status.isFinal) = []
  · rw [finish_of_select_eq_nil hnil] at hc
    rw [← (Prod.mk.inj hc).2]
    exact ⟨h, fun _ => rfl⟩
  · rw [finish_of_select_ne_nil hnil] at hc
    cases hstored : o.result.stored? with
    | none =>
      rw [hstored] at hc
      cases hc
      exact ⟨h, fun _ => rfl⟩
    | some result =>
      rw [hstored] at hc
      cases hc

theorem isSome_of_get? {db : Database} (h : db.InOrder) {id : Int} {row : Expression}
    (hrow : Ledger.get? id db = some row) : (db.expressions.rows.get? id).isSome = true := by
  rw [← get?_eq h, hrow]
  rfl

theorem start_answer {db : Database} (h : db.InOrder) {id : Int} {row : Expression}
    (hrow : Ledger.get? id db = some row) : (db.start id).1 = .ok () := by
  rw [start_eq h, if_pos (isSome_of_get? h hrow)]

/-- An expression may end with any finite number. -/
theorem finish_answer {db : Database} (h : db.InOrder) {id : Int} {row : Expression}
    (hrow : Ledger.get? id db = some row) {o : Outcome}
    (ho : o.result.isFinite = true) : (db.finish id o).1 = .ok () := by
  by_cases hnil : (db.expressions.select fun e => e.id == id && !e.status.isFinal) = []
  · rw [finish_of_select_eq_nil hnil, ensureExists_eq h, if_pos (isSome_of_get? h hrow)]
  · rw [finish_of_select_ne_nil hnil]
    cases hresult : o.result with
    | finite negative m => rfl
    | nan => rw [hresult] at ho; cases ho
    | infinite negative => rw [hresult] at ho; cases ho

instance : LawfulLedger Database where
  Valid db := db.InOrder
  keep := Number.kept
  keep_zero := by decide
  get?_id h hget := by
    rw [get?_eq h] at hget
    exact (h _ _ hget).1
  insert_ok := insert_ok
  insert_error := insert_error
  unfinished_ok h hc := by
    cases hc
    refine ⟨h, fun _ => rfl, RowsInOrder.nodup_filter_values h _, fun e => ?_⟩
    rw [get?_eq h]
    show e ∈ List.filter _ _ ↔ _
    rw [RowsInOrder.mem_filter_values h, Bool.not_eq_eq_eq_not, Bool.not_true]
    rfl
  unfinished_error _ hc := by cases hc
  start_ok := start_ok
  start_error := start_error
  finish_ok := finish_ok
  finish_error := finish_error

end Database

/-! ## 4. A ledger whose calls may be refused -/

namespace FaultyLedger

variable {σ : Type} [Ledger σ] [LawfulLedger σ]

omit [Ledger σ] [LawfulLedger σ] in
/-- A call is refused, or the ledger behind takes it. -/
theorem attempt_cases {α : Type} {f f' : FaultyLedger σ} {call : LedgerCall}
    {action : σ → Except LedgerError α × σ} {answer : Except LedgerError α}
    (h : f.attempt call action = (answer, f')) :
    ((∃ err, answer = .error err) ∧ f'.ledger = f.ledger) ∨
      action f.ledger = (answer, f'.ledger) := by
  rw [attempt] at h
  simp only at h
  split at h
  · cases h
    exact .inl ⟨⟨_, rfl⟩, rfl⟩
  · cases h
    exact .inr rfl

omit [Ledger σ] [LawfulLedger σ] in
theorem attempt_ok {α : Type} {f f' : FaultyLedger σ} {call : LedgerCall}
    {action : σ → Except LedgerError α × σ} {a : α} (h : f.attempt call action = (.ok a, f')) :
    action f.ledger = (.ok a, f'.ledger) := by
  rcases attempt_cases h with ⟨⟨err, herr⟩, -⟩ | h
  · cases herr
  · exact h

theorem attempt_error {α : Type} {f f' : FaultyLedger σ} {call : LedgerCall}
    {action : σ → Except LedgerError α × σ} {err : LedgerError}
    (hv : LawfulLedger.Valid f.ledger) (h : f.attempt call action = (.error err, f'))
    (haction : action f.ledger = (.error err, f'.ledger) →
      LawfulLedger.Valid f'.ledger ∧ Ledger.SameRows f.ledger f'.ledger) :
    LawfulLedger.Valid f'.ledger ∧ Ledger.SameRows f.ledger f'.ledger := by
  rcases attempt_cases h with ⟨-, hsame⟩ | h
  · rw [hsame]
    exact ⟨hv, fun _ => rfl⟩
  · exact haction h

instance : LawfulLedger (FaultyLedger σ) where
  Valid f := LawfulLedger.Valid f.ledger
  keep := LawfulLedger.keep σ
  keep_zero := LawfulLedger.keep_zero
  get?_id h hget := LawfulLedger.get?_id h hget
  insert_ok h hc := LawfulLedger.insert_ok h (attempt_ok hc)
  insert_error h hc := attempt_error h hc fun hc => LawfulLedger.insert_error h hc
  unfinished_ok h hc := LawfulLedger.unfinished_ok h (attempt_ok hc)
  unfinished_error h hc := attempt_error h hc fun hc => LawfulLedger.unfinished_error h hc
  start_ok h hc := LawfulLedger.start_ok h (attempt_ok hc)
  start_error h hc := attempt_error h hc fun hc => LawfulLedger.start_error h hc
  finish_ok h hc := LawfulLedger.finish_ok h (attempt_ok hc)
  finish_error h hc := attempt_error h hc fun hc => LawfulLedger.finish_error h hc

end FaultyLedger

/-! ## 5. The order of the unfinished rows -/

/-- A ledger that lists its unfinished rows lowest id first. -/
class AscendingLedger (σ : Type) [Ledger σ] [LawfulLedger σ] : Prop where
  unfinished_ascending {s s' : σ} {es : List Expression} :
    LawfulLedger.Valid s → Ledger.unfinished s = (.ok es, s') → es.Pairwise fun e f => e.id < f.id

instance : AscendingLedger MemoryLedger where
  unfinished_ascending h hc := by
    cases hc
    exact RowsInOrder.pairwise_filter_values h _

instance : AscendingLedger Database where
  unfinished_ascending h hc := by
    cases hc
    exact RowsInOrder.pairwise_filter_values h _

instance {σ : Type} [Ledger σ] [LawfulLedger σ] [AscendingLedger σ] :
    AscendingLedger (FaultyLedger σ) where
  unfinished_ascending {f f' es} h hc := by
    have hvalid : LawfulLedger.Valid f.ledger := h
    have hlisted : Ledger.unfinished f.ledger = (.ok es, f'.ledger) := FaultyLedger.attempt_ok hc
    exact AscendingLedger.unfinished_ascending hvalid hlisted

end Reckoner
