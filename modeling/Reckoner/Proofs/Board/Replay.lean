/-
Reckoner.Proofs.Board.Replay — unfinished expressions come back on a board.

What is done with an unfinished expression is seen from the board and from its
text (`Board.fate`). Only a formula with operators comes on the board
(`Board.takeUp`), so taking up one expression changes nothing for the others.
Some expressions taken up in turn give the tasks of their plans under ids that
go on from one plan to the next (`tasksInTurn`).

  1. Fates
  2. One expression
  3. The tasks of several plans
  4. Several expressions
-/
import Reckoner.Proofs.Board.Scan
import Reckoner.Proofs.Formula.Value

namespace Reckoner

/-! ## 1. Fates -/

/-- What is done with an unfinished expression. -/
inductive Fate where
  /-- It is live already. -/
  | skipped
  /-- Its text is no formula. -/
  | rejected (err : FormulaError)
  /-- Its formula has no operators. -/
  | ended (value : Number)
  /-- The tasks of its plan come on the board. -/
  | replayed (plan : Plan)

namespace Fate

/-- The plan whose tasks come on the board. -/
def plan? : Fate → Option Plan
  | .replayed plan => some plan
  | _ => none

/-- The row of the expression afterwards, with its number as a ledger keeps it. -/
def row (keep : Number → Number) (e : Expression) : Fate → Expression
  | .skipped => e
  | .rejected err => { e with status := .error, result := .zero, error := some err.message }
  | .ended value => { e with status := .done, result := keep value, error := none }
  | .replayed _ => e

/-- The expression is live afterwards, and its row still open. -/
def isOpen : Fate → Bool
  | .skipped | .replayed _ => true
  | .rejected _ | .ended _ => false

theorem plan?_eq_some_iff {fate : Fate} {plan : Plan} :
    fate.plan? = some plan ↔ fate = .replayed plan := by
  cases fate <;> simp [plan?]

theorem row_of_isOpen {fate : Fate} (h : fate.isOpen = true) (keep : Number → Number)
    (e : Expression) : fate.row keep e = e := by
  cases fate with
  | skipped => rfl
  | rejected err => cases h
  | ended value => cases h
  | replayed plan => rfl

theorem isFinished_row {fate : Fate} (h : fate.isOpen = false) (keep : Number → Number)
    (e : Expression) : (fate.row keep e).isFinished = true := by
  cases fate with
  | skipped => cases h
  | rejected err => rfl
  | ended value => rfl
  | replayed plan => cases h

end Fate

namespace Board

variable {b : Board} {e f : Expression} {plan : Plan} {timings : Timings}

/-- What is done with an unfinished expression beside this board. -/
def fate (b : Board) (e : Expression) : Fate :=
  if b.isLive e.id then .skipped
  else
    match Plan.ofFormula e.text with
    | .error err => .rejected err
    | .ok plan =>
      match plan.constant? with
      | some value => .ended value
      | none => .replayed plan

theorem fate_of_live (h : b.isLive e.id = true) : b.fate e = .skipped := by
  rw [fate, if_pos h]

theorem isLive_of_fate_eq_skipped (h : b.fate e = .skipped) : b.isLive e.id = true := by
  unfold fate at h
  split at h
  · next hlive => exact hlive
  · split at h
    · cases h
    · split at h <;> cases h

theorem isLive_of_fate_ne (h : b.fate e ≠ .skipped) : b.isLive e.id = false := by
  rw [← Bool.not_eq_true]
  exact fun hlive => h (fate_of_live hlive)

theorem fate_of_error (hlive : b.isLive e.id = false) {err : FormulaError}
    (h : Plan.ofFormula e.text = .error err) : b.fate e = .rejected err := by
  simp [fate, hlive, h]

theorem fate_of_constant (hlive : b.isLive e.id = false) (h : Plan.ofFormula e.text = .ok plan)
    {value : Number} (hconstant : plan.constant? = some value) : b.fate e = .ended value := by
  simp [fate, hlive, h, hconstant]

theorem fate_eq_replayed_iff : b.fate e = .replayed plan ↔
    b.isLive e.id = false ∧ Plan.ofFormula e.text = .ok plan ∧ plan.constant? = none := by
  constructor
  · intro h
    unfold fate at h
    split at h
    · cases h
    · next hlive =>
      split at h
      · cases h
      · next hplan =>
        split at h
        · cases h
        · next hconstant =>
          cases h
          exact ⟨Bool.not_eq_true _ ▸ hlive, hplan, hconstant⟩
  · rintro ⟨hlive, hplan, hconstant⟩
    simp [fate, hlive, hplan, hconstant]

/-- The fate of an expression depends on no other. -/
theorem fate_congr {b' : Board} (h : b'.isLive e.id = b.isLive e.id) : b'.fate e = b.fate e := by
  rw [fate, fate, h]

/-! ## 2. One expression -/

/-- The board once an unfinished expression has been taken up. -/
def takeUp (b : Board) (timings : Timings) (e : Expression) : Board :=
  match (b.fate e).plan? with
  | some plan => b.addPlan e.id plan timings
  | none => b

theorem takeUp_of_none (h : (b.fate e).plan? = none) : b.takeUp timings e = b := by
  rw [takeUp, h]

theorem takeUp_of_some (h : (b.fate e).plan? = some plan) :
    b.takeUp timings e = b.addPlan e.id plan timings := by
  rw [takeUp, h]

theorem linked_of_fate (h : (b.fate e).plan? = some plan) (timings : Timings) :
    Task.Linked e.id b.nextId (b.tasksFor e.id plan timings) := by
  obtain ⟨-, hplan, -⟩ := fate_eq_replayed_iff.1 (Fate.plan?_eq_some_iff.1 h)
  obtain ⟨-, tokens, -, -, htokens⟩ := Plan.exists_tree_of_ofFormula hplan
  exact linked_tasksFor htokens b e.id timings

theorem coherent_takeUp (h : b.Coherent) (timings : Timings) (e : Expression) :
    (b.takeUp timings e).Coherent := by
  cases hplan : (b.fate e).plan? with
  | none => rwa [takeUp_of_none hplan]
  | some plan =>
    rw [takeUp_of_some hplan]
    exact h.addPlan (linked_of_fate hplan timings)

theorem nextId_le_takeUp (b : Board) (timings : Timings) (e : Expression) :
    b.nextId ≤ (b.takeUp timings e).nextId := by
  unfold takeUp
  split
  · exact Int.le_add_of_nonneg_right (Int.natCast_nonneg _)
  · exact Int.le_refl _

theorem isLive_takeUp_of_ne {id : Int} (hne : id ≠ e.id) :
    (b.takeUp timings e).isLive id = b.isLive id := by
  unfold takeUp
  split
  · rw [Bool.eq_iff_iff, isLive_addPlan]
    simp [hne]
  · rfl

/-- An expression that is taken up is live, unless it has ended. -/
theorem isLive_takeUp_self (b : Board) (timings : Timings) (e : Expression) :
    (b.takeUp timings e).isLive e.id = (b.fate e).isOpen := by
  cases hfate : b.fate e with
  | skipped =>
    rw [takeUp_of_none (by rw [hfate]; rfl)]
    exact isLive_of_fate_eq_skipped hfate
  | rejected err =>
    rw [takeUp_of_none (by rw [hfate]; rfl)]
    exact isLive_of_fate_ne (by simp [hfate])
  | ended value =>
    rw [takeUp_of_none (by rw [hfate]; rfl)]
    exact isLive_of_fate_ne (by simp [hfate])
  | replayed plan =>
    obtain ⟨-, hplan, hoperator⟩ := fate_eq_replayed_iff.1 hfate
    rw [takeUp_of_some (by rw [hfate]; rfl)]
    exact (isLive_addPlan _ _ _ _ _).2 (.inl ⟨Plan.size_ne_zero hplan hoperator, rfl⟩)

theorem fate_takeUp_of_ne (hne : f.id ≠ e.id) : (b.takeUp timings e).fate f = b.fate f :=
  fate_congr (isLive_takeUp_of_ne hne)

theorem tasksOf_addPlan (h : b.Coherent) {id added : Int}
    (hl : Task.Linked added b.nextId (b.tasksFor added plan timings)) :
    (b.addPlan added plan timings).tasksOf id =
      b.tasksOf id ++ if id = added then b.tasksFor added plan timings else [] := by
  rw [tasksOf, h.values_addPlan hl, List.filter_append]
  congr 1
  split
  · next hid =>
    refine List.filter_eq_self.2 fun t ht => ?_
    rw [hl.owner t ht, hid, beq_self_eq_true]
  · next hid =>
    refine List.filter_eq_nil_iff.2 fun t ht => ?_
    rw [hl.owner t ht, beq_iff_eq]
    exact Ne.symm hid

/-- The other expressions keep their tasks. -/
theorem tasksOf_takeUp_of_ne (h : b.Coherent) {id : Int} (hne : id ≠ e.id) :
    (b.takeUp timings e).tasksOf id = b.tasksOf id := by
  cases hplan : (b.fate e).plan? with
  | none => rw [takeUp_of_none hplan]
  | some plan =>
    rw [takeUp_of_some hplan, tasksOf_addPlan h (linked_of_fate hplan timings), if_neg hne,
      List.append_nil]

/-- The tasks that an expression has once its turn has come. -/
def HasMet (b b' : Board) (timings : Timings) (e : Expression) : Fate → Prop
  | .skipped => b'.tasksOf e.id = b.tasksOf e.id
  | .rejected _ => b'.tasksOf e.id = []
  | .ended _ => b'.tasksOf e.id = []
  | .replayed plan => ∃ first, b.nextId ≤ first ∧
    b'.tasksOf e.id = plan.tasks e.id first timings

theorem tasksOf_eq_nil_of_fate (h : b.Coherent) (hfate : b.fate e ≠ .skipped) :
    b.tasksOf e.id = [] := by
  have hlive := isLive_of_fate_ne hfate
  rwa [← Bool.not_eq_true, isLive_iff_tasksOf h, not_not] at hlive

theorem hasMet_takeUp (h : b.Coherent) (timings : Timings) (e : Expression) :
    HasMet b (b.takeUp timings e) timings e (b.fate e) := by
  cases hfate : b.fate e with
  | skipped =>
    rw [takeUp_of_none (by rw [hfate]; rfl)]
    rfl
  | rejected err =>
    rw [takeUp_of_none (by rw [hfate]; rfl)]
    exact tasksOf_eq_nil_of_fate h (by simp [hfate])
  | ended value =>
    rw [takeUp_of_none (by rw [hfate]; rfl)]
    exact tasksOf_eq_nil_of_fate h (by simp [hfate])
  | replayed plan =>
    have hplan : (b.fate e).plan? = some plan := by rw [hfate]; rfl
    refine ⟨b.nextId, Int.le_refl _, ?_⟩
    rw [takeUp_of_some hplan, tasksOf_addPlan h (linked_of_fate hplan timings), if_pos rfl,
      tasksOf_eq_nil_of_fate h (by simp [hfate])]
    rfl

/-- What happens before and afterwards to the tasks of other expressions is no matter. -/
theorem HasMet.frame {b' c c' : Board} {fate : Fate} (h : HasMet b b' timings e fate)
    (hbefore : b.tasksOf e.id = c.tasksOf e.id) (hnext : c.nextId ≤ b.nextId)
    (hafter : c'.tasksOf e.id = b'.tasksOf e.id) : HasMet c c' timings e fate := by
  cases fate with
  | skipped => exact hafter.trans (h.trans hbefore)
  | rejected err => exact hafter.trans h
  | ended value => exact hafter.trans h
  | replayed plan =>
    obtain ⟨first, hfirst, htasks⟩ := h
    exact ⟨first, Int.le_trans hnext hfirst, hafter.trans htasks⟩

end Board

/-! ## 3. The tasks of several plans -/

/-- The tasks of some plans, each with its expression: the ids go on from one plan
to the next. -/
def tasksInTurn (timings : Timings) (first : Int) : List (Int × Plan) → List Task
  | [] => []
  | (e, plan) :: rest =>
    plan.tasks e first timings ++ tasksInTurn timings (first + plan.size) rest

theorem id_tasksInTurn {timings : Timings} {first : Int} {plans : List (Int × Plan)} {i : Nat}
    {t : Task} (h : (tasksInTurn timings first plans)[i]? = some t) : t.id = first + i := by
  induction plans generalizing first i with
  | nil => cases h
  | cons p plans ih =>
    obtain ⟨e, plan⟩ := p
    rw [tasksInTurn, List.getElem?_append, Plan.length_tasks] at h
    split at h
    · rw [Plan.getElem?_tasks, Option.map_eq_some_iff] at h
      obtain ⟨n, -, rfl⟩ := h
      rfl
    · have hid := ih h
      omega

theorem status_tasksInTurn {timings : Timings} {first : Int} {plans : List (Int × Plan)} {t : Task}
    (h : t ∈ tasksInTurn timings first plans) : t.status = .pending := by
  induction plans generalizing first with
  | nil => cases h
  | cons p plans ih =>
    rcases List.mem_append.1 h with h | h
    · obtain ⟨i, n, -, rfl⟩ := Plan.exists_of_mem_tasks h
      rfl
    · exact ih h

/-! ## 4. Several expressions -/

namespace Board

variable {b : Board} {e : Expression} {es : List Expression} {timings : Timings}

/-- The board once some unfinished expressions have been taken up in turn. -/
def takeUpAll (b : Board) (timings : Timings) (es : List Expression) : Board :=
  es.foldl (fun b e => b.takeUp timings e) b

/-- The expressions that have not ended once the first of them have been taken up. -/
def leftOf (b : Board) (pre post : List Expression) : List Expression :=
  (pre.filter fun e => (b.fate e).isOpen) ++ post

theorem leftOf_sublist (b : Board) (pre post : List Expression) :
    (b.leftOf pre post).Sublist (pre ++ post) :=
  List.filter_sublist.append (List.Sublist.refl post)

/-- The plans that come on the board, each with its expression. -/
def replays (b : Board) (es : List Expression) : List (Int × Plan) :=
  es.filterMap fun e => (b.fate e).plan?.map fun plan => (e.id, plan)

theorem takeUpAll_cons (b : Board) (timings : Timings) (e : Expression) (es : List Expression) :
    b.takeUpAll timings (e :: es) = (b.takeUp timings e).takeUpAll timings es := rfl

theorem takeUpAll_append (b : Board) (timings : Timings) (es fs : List Expression) :
    b.takeUpAll timings (es ++ fs) = (b.takeUpAll timings es).takeUpAll timings fs :=
  List.foldl_append

theorem coherent_takeUpAll (h : b.Coherent) (timings : Timings) (es : List Expression) :
    (b.takeUpAll timings es).Coherent := by
  induction es generalizing b with
  | nil => exact h
  | cons e es ih => exact ih (coherent_takeUp h timings e)

theorem nextId_le_takeUpAll (b : Board) (timings : Timings) (es : List Expression) :
    b.nextId ≤ (b.takeUpAll timings es).nextId := by
  induction es generalizing b with
  | nil => exact Int.le_refl _
  | cons e es ih => exact Int.le_trans (nextId_le_takeUp b timings e) (ih _)

theorem isLive_takeUpAll_of_notMem {id : Int} (hid : id ∉ es.map (·.id)) :
    (b.takeUpAll timings es).isLive id = b.isLive id := by
  induction es generalizing b with
  | nil => rfl
  | cons e es ih =>
    rw [List.map_cons, List.mem_cons, not_or] at hid
    rw [takeUpAll_cons, ih hid.2, isLive_takeUp_of_ne hid.1]

theorem isLive_takeUpAll_of_mem (hnodup : (es.map (·.id)).Nodup) (he : e ∈ es) :
    (b.takeUpAll timings es).isLive e.id = (b.fate e).isOpen := by
  induction es generalizing b with
  | nil => cases he
  | cons f es ih =>
    obtain ⟨hout, hnodup⟩ := List.nodup_cons.1 hnodup
    rw [takeUpAll_cons]
    rcases List.mem_cons.1 he with rfl | he
    · rw [isLive_takeUpAll_of_notMem hout, isLive_takeUp_self]
    · have hne : e.id ≠ f.id := fun hid => hout (List.mem_map.2 ⟨e, he, hid⟩)
      rw [ih hnodup he, fate_takeUp_of_ne hne]

/-- There is nothing to do for expressions that are live already. -/
theorem takeUpAll_of_live (h : ∀ e ∈ es, b.isLive e.id = true) : b.takeUpAll timings es = b := by
  induction es with
  | nil => rfl
  | cons e es ih =>
    have hfate := fate_of_live (h e List.mem_cons_self)
    rw [takeUpAll_cons, takeUp_of_none (by rw [hfate]; rfl)]
    exact ih fun f hf => h f (List.mem_cons_of_mem e hf)

theorem tasksOf_takeUpAll_of_notMem (h : b.Coherent) {id : Int} (hid : id ∉ es.map (·.id)) :
    (b.takeUpAll timings es).tasksOf id = b.tasksOf id := by
  induction es generalizing b with
  | nil => rfl
  | cons e es ih =>
    rw [List.map_cons, List.mem_cons, not_or] at hid
    rw [takeUpAll_cons, ih (coherent_takeUp h timings e) hid.2, tasksOf_takeUp_of_ne h hid.1]

/-- Each expression has the tasks that it has once its own turn has come: those
before it and behind it in the list add none and take none away. -/
theorem hasMet_takeUpAll (h : b.Coherent) (hnodup : (es.map (·.id)).Nodup) (he : e ∈ es) :
    HasMet b (b.takeUpAll timings es) timings e (b.fate e) := by
  obtain ⟨pre, post, rfl⟩ := List.append_of_mem he
  rw [List.map_append, List.map_cons] at hnodup
  obtain ⟨hout, -⟩ := List.nodup_cons.1 (List.nodup_middle.1 hnodup)
  rw [List.mem_append, not_or] at hout
  have hpre := coherent_takeUpAll h timings pre
  have hmet := hasMet_takeUp hpre timings e
  rw [fate_congr (isLive_takeUpAll_of_notMem hout.1)] at hmet
  refine hmet.frame (tasksOf_takeUpAll_of_notMem h hout.1) (nextId_le_takeUpAll b timings pre) ?_
  rw [takeUpAll_append, takeUpAll_cons,
    tasksOf_takeUpAll_of_notMem (coherent_takeUp hpre timings e) hout.2]

/-- The new tasks come behind those that the board has, which stay as they are. -/
theorem values_takeUpAll (h : b.Coherent) (hnodup : (es.map (·.id)).Nodup) :
    (b.takeUpAll timings es).tasks.values =
      b.tasks.values ++ tasksInTurn timings b.nextId (b.replays es) := by
  induction es generalizing b with
  | nil => exact (List.append_nil _).symm
  | cons e es ih =>
    obtain ⟨hout, hnodup⟩ := List.nodup_cons.1 hnodup
    have hreplays : (b.takeUp timings e).replays es = b.replays es := by
      refine List.filterMap_congr fun f hf => ?_
      rw [fate_takeUp_of_ne fun hid => hout (List.mem_map.2 ⟨f, hf, hid⟩)]
    rw [takeUpAll_cons, ih (coherent_takeUp h timings e) hnodup, hreplays]
    cases hplan : (b.fate e).plan? with
    | none => simp [takeUp_of_none hplan, replays, hplan]
    | some plan =>
      rw [takeUp_of_some hplan, h.values_addPlan (linked_of_fate hplan timings),
        List.append_assoc]
      simp [replays, hplan, tasksInTurn, addPlan, tasksFor]

end Board

end Reckoner
