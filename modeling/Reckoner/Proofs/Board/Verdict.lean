/-
Reckoner.Proofs.Board.Verdict — what a report that is taken decides.

The board takes every report on a task that is out with a worker. The report ends
the expression of the task, or the expression goes on (`verdict?`), and with that
all that becomes of the tasks is known: a value goes into the operands that wait for
it, and an expression that has ended takes its tasks with it (`tasksAfter`). Reports
on two tasks do the same to the tasks in either order (`tasksAfter_comm`).

  1. How a report ends an expression
  2. The tasks after a report
  3. Two reports
-/
import Reckoner.Proofs.Board.Apart
import Reckoner.Proofs.Board.Load

namespace Reckoner.Board

variable {b b' : Board} {r : Report} {t u : Task}

/-! ## 1. How a report ends an expression -/

/-- How the expression of a task that is out ends with a report on it, if it does. -/
def verdict? (b : Board) (r : Report) (t : Task) : Option Outcome :=
  match r.errorText? with
  | some error => some (.failed r.result error)
  | none => if b.lacking t.expressionId - 1 = 0 then some (.done r.result) else none

theorem verdict?_of_error {error : String} (herror : r.errorText? = some error) :
    b.verdict? r t = some (.failed r.result error) := by
  rw [verdict?, herror]

/-- The report of a value ends nothing while another task of the expression is open. -/
theorem verdict?_of_open (h : b.Served) (hvalue : r.errorText? = none)
    (ht : b.get? r.id = some t) (hs : t.status = .computing) (hu : u ∈ b.tasks.values)
    (howner : u.expressionId = t.expressionId) (hid : u.id ≠ r.id)
    (hopen : u.status.isFinal = false) : b.verdict? r t = none := by
  rw [verdict?, hvalue]
  exact if_neg (some_left_of_open h.reachable.coherent h.counted ht hs hu howner hid hopen)

/-- Only the tasks of the expression count. -/
theorem verdict?_congr (h : b.Served) (h' : b'.Served)
    (htasks : b'.tasksOf t.expressionId = b.tasksOf t.expressionId) :
    b'.verdict? r t = b.verdict? r t := by
  rw [verdict?, verdict?, lacking, lacking, h.remaining_eq, h'.remaining_eq, htasks]

/-! ## 2. The tasks after a report -/

/-- What becomes of some tasks with a report on one of them, which may end the
expression of that task. -/
def tasksAfter (r : Report) (t : Task) : Option Outcome → List Task → List Task
  | none, ts => ts.map (afterValue r)
  | some _, ts => ts.filter fun u => u.expressionId != t.expressionId

/-- The other expressions keep their tasks. -/
theorem filter_tasksAfter (h : b.Coherent) (ht : b.get? r.id = some t) (o : Option Outcome) :
    (tasksAfter r t o b.tasks.values).filter (fun u => u.expressionId != t.expressionId) =
      b.tasks.values.filter fun u => u.expressionId != t.expressionId := by
  cases o with
  | none => exact filter_afterValue h ht
  | some o =>
    rw [tasksAfter, List.filter_filter]
    simp only [Bool.and_self]

/-- What the board answers to a report, and the tasks that it has afterwards. -/
inductive Decides (b : Board) (r : Report) (t : Task) : Option Outcome → Prop
  | goesOn {unblocked : Option Int} {b' : Board}
      (completes : b.complete r = .ok (.progressed unblocked, b'))
      (values : b'.tasks.values = tasksAfter r t none b.tasks.values) : Decides b r t none
  | ends {o : Outcome} {b' : Board}
      (completes : b.complete r = .ok (.finished t.expressionId o, b'))
      (values : (b'.evict t.expressionId).tasks.values = tasksAfter r t (some o) b.tasks.values) :
      Decides b r t (some o)

/-- A report on a task that is out is taken, and ends what the verdict says. -/
theorem decides (h : b.Coherent) (ht : b.get? r.id = some t) (hs : t.status = .computing) :
    b.Decides r t (b.verdict? r t) := by
  have hanswer := complete_eq b r
  simp only [ht, hs, ne_eq, not_true_eq_false, if_false] at hanswer
  rw [verdict?]
  cases herror : r.errorText? with
  | some error =>
    rw [herror] at hanswer
    exact .ends hanswer (values_evict_of_completes h ht hs (.failed herror) rfl)
  | none =>
    rw [herror] at hanswer
    simp only at hanswer ⊢
    split
    · next hlast =>
      rw [if_pos hlast] at hanswer
      exact .ends hanswer (values_evict_of_completes h ht hs (.last herror hlast) rfl)
    · next hleft =>
      rw [if_neg hleft] at hanswer
      exact .goesOn hanswer (values_afterValue h ht hs)

/-! ## 3. Two reports -/

theorem given_comm {i j : Int} (hne : i ≠ j) (x y : Number) (t : Task) :
    (t.given i x).given j y = (t.given j y).given i x := by
  have hoperand : ∀ o : Operand, (o.given i x).given j y = (o.given j y).given i x := by
    intro o
    by_cases hi : o = .pending i
    · simp [Operand.given, hi, hne, Operand.resolved]
    · by_cases hj : o = .pending j
      · simp [Operand.given, hj, hne.symm, Operand.resolved]
      · simp [Operand.given, hi, hj]
  simp only [Task.given, hoperand]

theorem reported_given (r : Report) (i : Int) (x : Number) (t : Task) :
    reported r (t.given i x) = (reported r t).given i x := by
  by_cases hid : t.id = r.id
  · simp [reported, Task.given, doneTask, hid]
  · simp [reported, Task.given, hid]

theorem reported_comm {ra rb : Report} (hne : ra.id ≠ rb.id) (t : Task) :
    reported rb (reported ra t) = reported ra (reported rb t) := by
  by_cases ha : t.id = ra.id
  · have hb : t.id ≠ rb.id := fun hb => hne (ha.symm.trans hb)
    have hb' : (reported ra t).id ≠ rb.id := by rwa [id_reported]
    have hkept : reported rb t = t := if_neg hb
    rw [hkept]
    exact if_neg hb'
  · have ha' : (reported rb t).id ≠ ra.id := by rwa [id_reported]
    have hkept : reported ra t = t := if_neg ha
    rw [hkept]
    exact (if_neg ha').symm

/-- Two values go into their places in either order. -/
theorem afterValue_comm {ra rb : Report} (hne : ra.id ≠ rb.id) (t : Task) :
    afterValue rb (afterValue ra t) = afterValue ra (afterValue rb t) := by
  rw [afterValue, afterValue, afterValue, afterValue, reported_given, reported_given,
    reported_comm hne, given_comm hne]

/-- So do two reports, which may end their expressions. -/
theorem tasksAfter_comm {ra rb : Report} (hne : ra.id ≠ rb.id) (ta tb : Task)
    (va vb : Option Outcome) (ts : List Task) :
    tasksAfter rb tb vb (tasksAfter ra ta va ts) =
      tasksAfter ra ta va (tasksAfter rb tb vb ts) := by
  cases va <;> cases vb
  · simp only [tasksAfter, List.map_map, Function.comp_def, afterValue_comm hne]
  · simp only [tasksAfter, List.filter_map, Function.comp_def, expressionId_afterValue]
  · simp only [tasksAfter, List.filter_map, Function.comp_def, expressionId_afterValue]
  · simp only [tasksAfter, List.filter_filter, Bool.and_comm]

/-- Reports on two tasks that are out: of different expressions, or two values while a
third task of the expression is pending. -/
structure Pair (b : Board) (ra rb : Report) (t u : Task) : Prop where
  left : b.get? ra.id = some t
  right : b.get? rb.id = some u
  leftOut : t.status = .computing
  rightOut : u.status = .computing
  ne : ra.id ≠ rb.id
  apart : t.expressionId ≠ u.expressionId ∨ ra.errorText? = none ∧ rb.errorText? = none ∧
    ∃ v ∈ b.tasks.values, v.status = .pending ∧ v.expressionId = t.expressionId ∧
      v.expressionId = u.expressionId

theorem id_ne_of_pending (h : b.Coherent) (ht : b.get? r.id = some t) (hs : t.status = .computing)
    (hu : u ∈ b.tasks.values) (hpending : u.status = .pending) : u.id ≠ r.id := by
  intro hid
  rw [eq_of_id_eq h ht hu hid, hs] at hpending
  cases hpending

namespace Pair

variable {ra rb : Report}

theorem symm (h : b.Pair ra rb t u) : b.Pair rb ra u t where
  left := h.right
  right := h.left
  leftOut := h.rightOut
  rightOut := h.leftOut
  ne := h.ne.symm
  apart := h.apart.imp Ne.symm fun ⟨hra, hrb, v, hv, hs, hvt, hvu⟩ =>
    ⟨hrb, hra, v, hv, hs, hvu, hvt⟩

/-- Of one expression, neither report ends it. -/
theorem verdict?_left (h : b.Pair ra rb t u) (hb : b.Served)
    (hsame : t.expressionId = u.expressionId) : b.verdict? ra t = none := by
  obtain ⟨hvalue, -, v, hv, hs, howner, -⟩ := h.apart.resolve_left (not_not.2 hsame)
  have hid := id_ne_of_pending hb.reachable.coherent h.left h.leftOut hv hs
  exact verdict?_of_open hb hvalue h.left h.leftOut hv howner hid (by rw [hs]; rfl)

end Pair

end Reckoner.Board
