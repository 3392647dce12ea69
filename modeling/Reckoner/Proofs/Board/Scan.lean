/-
Reckoner.Proofs.Board.Scan — what the indexes of a board answer, a scan of its
tasks answers too.

The tasks of a board stand in ascending order of their ids. On a coherent board
the task to hand out is the first runnable one, a result goes into the operands
that refer to its task, wherever they are, and the task it sets free is the one
that was not runnable before. With exact counters the last result is the one
that leaves no task open, and the sizes of the indexes are counts of tasks.

  1. The list of tasks
  2. The next task
  3. A result in the place of references to it
  4. Handing out and reports
  5. How much is on the board
-/
import Mathlib.Data.List.Dedup
import Mathlib.Data.List.Find
import Mathlib.Data.List.Sort
import Reckoner.Proofs.Board.Reachable

namespace Reckoner

/-! ## 1. The list of tasks -/

namespace Board

variable {b : Board}

theorem mem_tasks_iff (h : b.Coherent) {t : Task} : t ∈ b.tasks.values ↔ b.get? t.id = some t := by
  rw [IdMap.mem_values_iff]
  constructor
  · rintro ⟨id, ht⟩
    rwa [h.id_eq id t ht]
  · intro ht
    exact ⟨t.id, ht⟩

theorem mem_tasks_of_get? (h : b.Coherent) {id : Int} {t : Task} (ht : b.get? id = some t) :
    t ∈ b.tasks.values :=
  (mem_tasks_iff h).2 (by rw [h.id_eq id t ht, ht])

/-- There is one task of an id. -/
theorem eq_of_id_eq (h : b.Coherent) {id : Int} {t u : Task} (ht : b.get? id = some t)
    (hu : u ∈ b.tasks.values) (hid : u.id = id) : u = t := by
  have hget := (mem_tasks_iff h).1 hu
  rw [hid, ht] at hget
  exact (Option.some.inj hget).symm

theorem eq_of_mem (h : b.Coherent) {t u : Task} (ht : t ∈ b.tasks.values)
    (hu : u ∈ b.tasks.values) (hid : u.id = t.id) : u = t :=
  eq_of_id_eq h ((mem_tasks_iff h).1 ht) hu hid

theorem keys_tasks (h : b.Coherent) : b.tasks.keys = b.tasks.values.map (·.id) := by
  rw [IdMap.keys, IdMap.values, List.map_map]
  refine List.map_congr_left fun e he => ?_
  exact (h.id_eq e.1 e.2 ((IdMap.mem_entries_iff _ _ _).1 he)).symm

/-- The live expressions are those of the tasks. -/
theorem isLive_iff_exists_mem (h : b.Coherent) (e : Int) :
    b.isLive e = true ↔ ∃ t ∈ b.tasks.values, t.expressionId = e := by
  rw [h.live]
  simp only [IdMap.mem_values_iff]
  constructor
  · rintro ⟨id, t, ht, he⟩
    exact ⟨t, ⟨id, ht⟩, he⟩
  · rintro ⟨t, ⟨id, ht⟩, he⟩
    exact ⟨id, t, ht, he⟩

theorem isLive_iff_tasksOf (h : b.Coherent) (e : Int) :
    b.isLive e = true ↔ b.tasksOf e ≠ [] := by
  rw [isLive_iff_exists_mem h, tasksOf, ne_eq, List.filter_eq_nil_iff]
  simp

/-- The tasks stand in ascending order of their ids. -/
theorem pairwise_id (h : b.Coherent) : (b.tasks.values.map (·.id)).Pairwise (· < ·) := by
  rw [← keys_tasks h]
  exact b.tasks.pairwise_keys

theorem find?_id (h : b.Coherent) (id : Int) :
    b.tasks.values.find? (fun t => t.id == id) = b.get? id :=
  IdMap.find?_values h.id_eq id

/-- A change of one task is a change of the one place in the list where it stands. -/
theorem values_insert (h : b.Coherent) {id : Int} {t : Task} (ht : b.get? id = some t)
    (f : Task → Task) :
    (b.tasks.insert id (f t)).values =
      b.tasks.values.map fun u => if u.id = id then f u else u := by
  obtain ⟨pre, post, hold, hnew⟩ := IdMap.exists_entries_insert ht
  have hasc := b.tasks.ascending
  rw [hold, IdMap.Ascending, List.pairwise_append, List.pairwise_cons] at hasc
  obtain ⟨-, ⟨hpost, -⟩, hpre⟩ := hasc
  -- The entries around it have other ids, so the change passes them by.
  have hothers : ∀ es : List (Int × Task), (∀ e ∈ es, e ∈ b.tasks.entries ∧ e.1 ≠ id) →
      es.map (fun e => if e.2.id = id then f e.2 else e.2) = es.map (·.2) := by
    intro es hes
    refine List.map_congr_left fun e he => if_neg ?_
    rw [h.id_eq e.1 e.2 ((IdMap.mem_entries_iff _ _ _).1 (hes e he).1)]
    exact (hes e he).2
  rw [IdMap.values, hnew, IdMap.values, List.map_map, hold]
  simp only [List.map_append, List.map_cons, Function.comp_def]
  rw [hothers pre, hothers post, if_pos (h.id_eq id t ht)]
  · intro e he
    exact ⟨by rw [hold]; simp [he], Int.ne_of_gt (hpost e he)⟩
  · intro e he
    exact ⟨by rw [hold]; simp [he], Int.ne_of_lt (hpre e he (id, t) List.mem_cons_self)⟩

/-! ## 2. The next task -/

theorem keys_ready (h : b.Coherent) :
    b.ready.keys = (b.tasks.values.filter Task.isRunnable).map (·.id) := by
  refine b.ready.pairwise_keys.eq_of_mem_iff ?_ fun id => ?_
  · exact (pairwise_id h).sublist (List.filter_sublist.map _)
  · rw [← IdMap.contains_iff, h.ready]
    simp only [List.mem_map, List.mem_filter, mem_tasks_iff h]
    constructor
    · rintro ⟨t, ht, hrun⟩
      have hid := h.id_eq id t ht
      exact ⟨t, ⟨by rw [hid, ht], hrun⟩, hid⟩
    · rintro ⟨t, ⟨ht, hrun⟩, rfl⟩
      exact ⟨t, ht, hrun⟩

/-- The task to hand out is the first runnable one. -/
theorem peek?_eq_find? (h : b.Coherent) : b.peek? = b.tasks.values.find? Task.isRunnable := by
  have hhead : b.ready.least?.map (·.1) = (b.tasks.values.find? Task.isRunnable).map (·.id) := by
    rw [IdMap.least?, ← List.head?_map, ← List.head?_filter, ← List.head?_map]
    exact congrArg List.head? (keys_ready h)
  rw [peek?]
  cases hfind : b.tasks.values.find? Task.isRunnable with
  | none =>
    rw [hfind, Option.map_none, Option.map_eq_none_iff] at hhead
    rw [hhead]
    rfl
  | some t =>
    rw [hfind, Option.map_some, Option.map_eq_some_iff] at hhead
    obtain ⟨e, he, hid⟩ := hhead
    rw [he, Option.bind_some, hid]
    exact (mem_tasks_iff h).1 (List.mem_of_find?_eq_some hfind)

theorem claim?_eq (h : b.Coherent) :
    b.claim? = b.peek?.map fun t => ({ t with status := .computing }, b.handOut t.id t) := by
  rw [claim?, peek?]
  cases hleast : b.ready.least? with
  | none => rfl
  | some e =>
    rw [Option.bind_some]
    cases ht : b.get? e.1 with
    | none => simp only [ht, Option.map_none]
    | some t =>
      simp only [ht, Option.map_some]
      have hid := h.id_eq e.1 t ht
      simp only [handOut, hid]

theorem claim?_of_peek? (h : b.Coherent) {t : Task} (hpeek : b.peek? = some t) :
    b.claim? = some ({ t with status := .computing }, b.handOut t.id t) := by
  rw [claim?_eq h, hpeek, Option.map_some]

/-- The task to hand out is on the board. -/
theorem get?_of_peek? (h : b.Coherent) {t : Task} (hpeek : b.peek? = some t) :
    b.get? t.id = some t := by
  rw [peek?_eq_find? h] at hpeek
  exact (mem_tasks_iff h).1 (List.mem_of_find?_eq_some hpeek)

theorem isRunnable_of_peek? (h : b.Coherent) {t : Task} (hpeek : b.peek? = some t) :
    t.isRunnable = true := by
  rw [peek?_eq_find? h] at hpeek
  exact List.find?_some hpeek

theorem mem_of_peek? (h : b.Coherent) {t : Task} (hpeek : b.peek? = some t) :
    t ∈ b.tasks.values :=
  mem_tasks_of_get? h (get?_of_peek? h hpeek)

theorem status_of_peek? (h : b.Coherent) {t : Task} (hpeek : b.peek? = some t) :
    t.status = .pending :=
  (t.isRunnable_iff.1 (isRunnable_of_peek? h hpeek)).1

/-- Both operands of the task to hand out are known. -/
theorem isLiteral_of_peek? (h : b.Coherent) {t : Task} (hpeek : b.peek? = some t) (side : Side) :
    (t.operand side).isLiteral = true :=
  (t.isRunnable_iff.1 (isRunnable_of_peek? h hpeek)).2 side

end Board

/-! ## 3. A result in the place of references to it -/

/-- The operand once the value of a task is known. -/
def Operand.given (o : Operand) (dep : Int) (value : Number) : Operand :=
  if o = .pending dep then .resolved value else o

/-- The task once the value of another is known. -/
def Task.given (t : Task) (dep : Int) (value : Number) : Task :=
  { t with left := t.left.given dep value, right := t.right.given dep value }

theorem Task.operand_given (t : Task) (dep : Int) (value : Number) (side : Side) :
    (t.given dep value).operand side = (t.operand side).given dep value := by
  cases side <;> rfl

theorem Task.given_of_not_waiting {t : Task} {dep : Int}
    (h : ∀ side, t.operand side ≠ .pending dep) (value : Number) : t.given dep value = t := by
  have hl : t.left ≠ .pending dep := h .left
  have hr : t.right ≠ .pending dep := h .right
  rw [given, Operand.given, Operand.given, if_neg hl, if_neg hr]

theorem Task.given_of_waiting {t : Task} {dep : Int} {side : Side}
    (h : ∀ s, t.operand s = .pending dep ↔ s = side) (value : Number) :
    t.given dep value = t.withSide side (.resolved value) := by
  have hl := h .left
  have hr := h .right
  cases side with
  | left =>
    have hl' : t.left = .pending dep := hl.2 rfl
    have hr' : t.right ≠ .pending dep := fun heq => nomatch hr.1 heq
    rw [given, Operand.given, Operand.given, if_pos hl', if_neg hr']
    rfl
  | right =>
    have hl' : t.left ≠ .pending dep := fun heq => nomatch hl.1 heq
    have hr' : t.right = .pending dep := hr.2 rfl
    rw [given, Operand.given, Operand.given, if_neg hl', if_pos hr']
    rfl

namespace Board

variable {b : Board}

theorem operand_eq_pending_iff (h : b.Coherent) {t : Task} (ht : t ∈ b.tasks.values) (side : Side)
    (dep : Int) : t.operand side = .pending dep ↔ b.waiters.get? dep = some ⟨t.id, side⟩ := by
  have hget := (mem_tasks_iff h).1 ht
  rw [h.waiters]
  constructor
  · intro ho
    exact ⟨t, hget, ho⟩
  · rintro ⟨u, hu, ho⟩
    rw [hget] at hu
    cases hu
    exact ho

theorem given_of_waiter (h : b.Coherent) {dep : Int} {w : Waiter}
    (hw : b.waiters.get? dep = some w) {t : Task} (ht : t ∈ b.tasks.values) (value : Number) :
    t.given dep value = if t.id = w.task then t.withSide w.side (.resolved value) else t := by
  have hside : ∀ s, t.operand s = .pending dep ↔ w = ⟨t.id, s⟩ := by
    intro s
    rw [operand_eq_pending_iff h ht, hw, Option.some_inj]
  split
  · next hid =>
    refine Task.given_of_waiting (fun s => ?_) value
    rw [hside, hid]
    exact ⟨fun hs => (congrArg Waiter.side hs).symm, fun hs => by rw [hs]⟩
  · next hid =>
    refine Task.given_of_not_waiting (fun s ho => ?_) value
    exact hid (congrArg Waiter.task ((hside s).1 ho)).symm

theorem given_of_no_waiter (h : b.Coherent) {dep : Int} (hw : b.waiters.get? dep = none)
    {t : Task} (ht : t ∈ b.tasks.values) (value : Number) : t.given dep value = t := by
  refine Task.given_of_not_waiting (fun side ho => ?_) value
  rw [operand_eq_pending_iff h ht, hw] at ho
  cases ho

/-- A result goes into every operand that refers to its task. -/
theorem values_resolve (h : b.Coherent) (dep : Int) (value : Number) :
    (b.resolve dep value).2.tasks.values = b.tasks.values.map fun t => t.given dep value := by
  cases hw : b.waiters.get? dep with
  | none =>
    rw [resolve_of_none hw]
    refine (List.map_id _).symm.trans (List.map_congr_left fun t ht => ?_)
    exact (given_of_no_waiter h hw ht value).symm
  | some w =>
    obtain ⟨t, ht, -, -⟩ := h.exists_waiting hw
    rw [resolve_of_some hw ht, tasks_supply,
      values_insert h ht fun t => t.withSide w.side (.resolved value)]
    exact List.map_congr_left fun u hu => (given_of_waiter h hw hu value).symm

/-- The task that a result sets free is the one that was not runnable before. -/
theorem unblocked_eq_find? (h : b.Coherent) (dep : Int) (value : Number) :
    (b.resolve dep value).1 =
      (b.tasks.values.find? fun t => !t.isRunnable && (t.given dep value).isRunnable).map
        (·.id) := by
  cases hw : b.waiters.get? dep with
  | none =>
    rw [resolve_of_none hw, List.find?_eq_none.2, Option.map_none]
    intro t ht
    rw [given_of_no_waiter h hw ht]
    simp
  | some w =>
    obtain ⟨t, ht, ho, -⟩ := h.exists_waiting hw
    have hid := h.id_eq w.task t ht
    have hmem := mem_tasks_of_get? h ht
    have hnot := Task.not_isRunnable_of_pending ho
    rw [resolve_of_some hw ht]
    -- Only the task that waits can become runnable.
    have honly : ∀ u ∈ b.tasks.values, (!u.isRunnable && (u.given dep value).isRunnable) = true →
        u = t := by
      intro u hu hp
      rw [given_of_waiter h hw hu] at hp
      split at hp
      · next htask => exact eq_of_id_eq h ht hu htask
      · simp at hp
    have hgiven : t.given dep value = t.withSide w.side (.resolved value) := by
      rw [given_of_waiter h hw hmem, if_pos hid]
    cases hrun : (t.withSide w.side (.resolved value)).isRunnable with
    | true =>
      rw [IdMap.find?_eq_some_of_unique hmem (by simp [hnot, hgiven, hrun]) honly]
      rfl
    | false =>
      rw [List.find?_eq_none.2]
      · rfl
      · intro u hu hp
        rw [honly u hu hp, hgiven, hrun] at hp
        simp at hp

/-! ## 4. Handing out and reports -/

/-- The task, out with a worker if it is the one of this id. -/
def handedOut (id : Int) (t : Task) : Task :=
  if t.id = id then { t with status := .computing } else t

/-- The task, done if it is the one that a report is on. -/
def reported (r : Report) (t : Task) : Task := if t.id = r.id then doneTask r t else t

/-- What the report of a value makes of a task. -/
def afterValue (r : Report) (t : Task) : Task := (reported r t).given r.id r.result

@[simp] theorem id_handedOut (id : Int) (t : Task) : (handedOut id t).id = t.id := by
  rw [handedOut]
  split <;> rfl

@[simp] theorem expressionId_handedOut (id : Int) (t : Task) :
    (handedOut id t).expressionId = t.expressionId := by
  rw [handedOut]
  split <;> rfl

@[simp] theorem operand_handedOut (id : Int) (t : Task) (side : Side) :
    (handedOut id t).operand side = t.operand side := by
  rw [handedOut]
  cases side <;> split <;> rfl

theorem operator_handedOut (id : Int) (t : Task) : (handedOut id t).operator = t.operator := by
  rw [handedOut]
  split <;> rfl

@[simp] theorem id_reported (r : Report) (t : Task) : (reported r t).id = t.id := by
  rw [reported]
  split <;> rfl

@[simp] theorem expressionId_reported (r : Report) (t : Task) :
    (reported r t).expressionId = t.expressionId := by
  rw [reported]
  split <;> rfl

@[simp] theorem operand_reported (r : Report) (t : Task) (side : Side) :
    (reported r t).operand side = t.operand side := by
  rw [reported]
  cases side <;> split <;> rfl

theorem operator_reported (r : Report) (t : Task) : (reported r t).operator = t.operator := by
  rw [reported]
  split <;> rfl

@[simp] theorem id_afterValue (r : Report) (t : Task) : (afterValue r t).id = t.id :=
  id_reported r t

@[simp] theorem expressionId_afterValue (r : Report) (t : Task) :
    (afterValue r t).expressionId = t.expressionId :=
  expressionId_reported r t

theorem operand_afterValue (r : Report) (t : Task) (side : Side) :
    (afterValue r t).operand side = (t.operand side).given r.id r.result := by
  rw [afterValue, Task.operand_given, operand_reported]

/-- Only the task of a report gets another status. -/
theorem status_afterValue {r : Report} {t : Task} (hid : t.id ≠ r.id) :
    (afterValue r t).status = t.status := by
  rw [afterValue, reported, if_neg hid]
  rfl

theorem values_handOut (h : b.Coherent) {id : Int} {t : Task} (ht : b.get? id = some t) :
    (b.handOut id t).tasks.values = b.tasks.values.map (handedOut id) := by
  rw [tasks_handOut]
  exact values_insert h ht fun u => { u with status := .computing }

theorem values_markDone (h : b.Coherent) {r : Report} {t : Task} (ht : b.get? r.id = some t) :
    (b.markDone r t).tasks.values = b.tasks.values.map (reported r) := by
  rw [tasks_markDone]
  exact values_insert h ht (doneTask r)

theorem values_afterValue (h : b.Coherent) {r : Report} {t : Task} (ht : b.get? r.id = some t)
    (hs : t.status = .computing) :
    ((b.markDone r t).resolve r.id r.result).2.tasks.values =
      b.tasks.values.map (afterValue r) := by
  rw [values_resolve (h.markDone ht hs), values_markDone h ht, List.map_map]
  rfl

/-- The task that the report of a value sets free. -/
theorem unblocked_afterValue (h : b.Coherent) {r : Report} {t : Task} (ht : b.get? r.id = some t)
    (hs : t.status = .computing) :
    ((b.markDone r t).resolve r.id r.result).1 =
      (b.tasks.values.find? fun u => !u.isRunnable && (afterValue r u).isRunnable).map (·.id) := by
  rw [unblocked_eq_find? (h.markDone ht hs), values_markDone h ht, List.find?_map, Option.map_map]
  have hsame : b.tasks.values.find? ((fun u => !u.isRunnable &&
        (u.given r.id r.result).isRunnable) ∘ reported r) =
      b.tasks.values.find? fun u => !u.isRunnable && (afterValue r u).isRunnable := by
    refine List.find?_congr fun u hu => ?_
    simp only [Function.comp_apply, afterValue, reported]
    split
    · -- Neither before nor after is the task of the report runnable.
      have hdone : ((doneTask r u).given r.id r.result).isRunnable = false :=
        Task.not_isRunnable_of_status (by simp [Task.given, doneTask])
      rw [hdone, Bool.and_false, Bool.and_false]
    · rfl
  rw [hsame]
  congr 1
  funext u
  exact id_reported r u

theorem id_ne_of_owner (h : b.Coherent) {id : Int} {t u : Task} (ht : b.get? id = some t)
    (hu : u ∈ b.tasks.values) (hne : u.expressionId ≠ t.expressionId) : u.id ≠ id := by
  intro hid
  rw [eq_of_id_eq h ht hu hid] at hne
  exact hne rfl

/-- A report on a task changes no task of another expression: only tasks of the
same expression refer to it. -/
theorem afterValue_eq_self (h : b.Coherent) {r : Report} {t u : Task} (ht : b.get? r.id = some t)
    (hu : u ∈ b.tasks.values) (hne : u.expressionId ≠ t.expressionId) : afterValue r u = u := by
  rw [afterValue, reported, if_neg (id_ne_of_owner h ht hu hne), Task.given_of_not_waiting]
  intro side ho
  obtain ⟨-, v, hv, hown⟩ := h.backward _ u side _ ((mem_tasks_iff h).1 hu) ho
  rw [ht] at hv
  cases hv
  exact hne hown.symm

/-- A change within one expression is gone with its tasks. -/
theorem filter_map_of_owner {ts : List Task} {e : Int} {f : Task → Task}
    (howner : ∀ u, (f u).expressionId = u.expressionId)
    (hself : ∀ u ∈ ts, u.expressionId ≠ e → f u = u) :
    (ts.map f).filter (fun u => u.expressionId != e) =
      ts.filter fun u => u.expressionId != e := by
  rw [List.filter_map]
  simp only [Function.comp_def, howner]
  refine (List.map_congr_left fun u hu => ?_).trans (List.map_id _)
  obtain ⟨hmem, hne⟩ := List.mem_filter.1 hu
  exact hself u hmem (bne_iff_ne.1 hne)

theorem filter_afterValue (h : b.Coherent) {r : Report} {t : Task} (ht : b.get? r.id = some t) :
    (b.tasks.values.map (afterValue r)).filter (fun u => u.expressionId != t.expressionId) =
      b.tasks.values.filter fun u => u.expressionId != t.expressionId :=
  filter_map_of_owner (expressionId_afterValue r) fun _ hu hne => afterValue_eq_self h ht hu hne

theorem mem_map_afterValue (h : b.Coherent) {r : Report} {t u : Task} (ht : b.get? r.id = some t)
    (hne : u.expressionId ≠ t.expressionId) :
    u ∈ b.tasks.values.map (afterValue r) ↔ u ∈ b.tasks.values := by
  have hfilter := filter_afterValue h ht
  have hmem : ∀ ts : List Task, u ∈ ts ↔
      u ∈ ts.filter fun u => u.expressionId != t.expressionId := by
    intro ts
    rw [List.mem_filter, bne_iff_ne]
    exact ⟨fun hu => ⟨hu, hne⟩, And.left⟩
  rw [hmem (List.map _ _), hfilter, ← hmem]

/-- A task that is still being computed is as it was handed out. -/
theorem afterValue_of_computing (h : b.Coherent) {r : Report} {u : Task}
    (hu : u ∈ b.tasks.values) (hs : (afterValue r u).status = .computing) :
    afterValue r u = u := by
  have hs' : (reported r u).status = .computing := hs
  rw [reported] at hs'
  split at hs'
  · cases hs'
  · next hid =>
    rw [afterValue, reported, if_neg hid]
    refine Task.given_of_not_waiting (fun side ho => ?_) _
    have hpending := h.status_pending ((mem_tasks_iff h).1 hu) ho
    rw [hs'] at hpending
    cases hpending

/-- When an expression ends, the tasks of the others stay as they were. -/
theorem values_evict_of_completes {b' : Board} (h : b.Coherent) {r : Report} {t : Task}
    {c : Completion} (ht : b.get? r.id = some t) (hs : t.status = .computing) {o : Outcome}
    (hc : Completes b r t c b') (hfinished : c = .finished t.expressionId o) :
    (b'.evict t.expressionId).tasks.values =
      b.tasks.values.filter fun u => u.expressionId != t.expressionId := by
  cases hc with
  | failed isError =>
    rw [values_evict (h.markFailed ht hs _).id_eq, tasks_markFailed,
      values_insert h ht fun u => failedTask r u _]
    refine filter_map_of_owner (fun u => by split <;> rfl) fun u hu hne => ?_
    exact if_neg (id_ne_of_owner h ht hu hne)
  | last isValue none_left =>
    rw [values_evict (h.markDone ht hs).id_eq, values_markDone h ht]
    refine filter_map_of_owner (expressionId_reported r) fun u hu hne => ?_
    exact if_neg (id_ne_of_owner h ht hu hne)
  | progressed isValue some_left => cases hfinished

/-- The last result is the one that leaves no task open. -/
theorem none_left_iff (h : b.Coherent) (hc : b.Counted) {r : Report} {t : Task}
    (ht : b.get? r.id = some t) (hs : t.status = .computing) :
    b.lacking t.expressionId - 1 = 0 ↔
      (b.tasks.values.map (afterValue r)).any (isOpen t.expressionId) = false := by
  rw [← hc.openCount_markDone h ht hs, openCount, values_markDone h ht, List.countP_eq_zero,
    List.any_eq_false]
  have hopen : ∀ u : Task, isOpen t.expressionId (afterValue r u) =
      isOpen t.expressionId (reported r u) := fun _ => rfl
  simp only [List.forall_mem_map, hopen]

/-- Where another task of its expression is open, the result of a report is not the
last. -/
theorem some_left_of_open (h : b.Coherent) (hc : b.Counted) {r : Report} {t u : Task}
    (ht : b.get? r.id = some t) (hs : t.status = .computing) (hu : u ∈ b.tasks.values)
    (howner : u.expressionId = t.expressionId) (hid : u.id ≠ r.id)
    (hopen : u.status.isFinal = false) : b.lacking t.expressionId - 1 ≠ 0 := by
  intro hleft
  have hkept : (b.markDone r t).get? u.id = some u := by
    rw [get?, tasks_markDone, IdMap.get?_insert, if_neg hid]
    exact (mem_tasks_iff h).1 hu
  have hpos := openCount_pos hkept hopen
  rw [howner, hc.openCount_markDone h ht hs, hleft] at hpos
  exact absurd hpos (Nat.lt_irrefl 0)

/-- So it is where the task of the report is waited for: the task that waits is open. -/
theorem some_left_of_awaited (h : b.Coherent) (hc : b.Counted) {r : Report} {t u : Task}
    (ht : b.get? r.id = some t) (hs : t.status = .computing) (hu : u ∈ b.tasks.values)
    (howner : u.expressionId = t.expressionId) {side : Side} (ho : u.operand side = .pending t.id) :
    b.lacking t.expressionId - 1 ≠ 0 := by
  have hget := (mem_tasks_iff h).1 hu
  have hlt := (h.backward u.id u side t.id hget ho).1
  have hid := h.id_eq r.id t ht
  exact some_left_of_open h hc ht hs hu howner (by omega) (by rw [h.status_pending hget ho]; rfl)

/-! ## 5. How much is on the board -/

/-- The load of a board, by a scan of its tasks. -/
theorem load_eq (h : b.Coherent) :
    b.load = {
      tasks := b.tasks.values.length
      runnable := b.tasks.values.countP Task.isRunnable
      computing := b.tasks.values.countP fun t => t.status = .computing
      expressions := (b.tasks.values.map (·.expressionId)).dedup.length } := by
  have hready : b.ready.size = b.tasks.values.countP Task.isRunnable := by
    have hlength := congrArg List.length (keys_ready h)
    rw [List.length_map, ← List.countP_eq_length_filter] at hlength
    rw [← hlength, IdMap.keys, List.length_map, IdMap.size]
  have hlive : b.remaining.keys.Perm (b.tasks.values.map (·.expressionId)).dedup := by
    refine (List.perm_ext_iff_of_nodup b.remaining.nodup_keys (List.nodup_dedup _)).2 fun e => ?_
    rw [← IdMap.contains_iff, ← isLive, isLive_iff_exists_mem h, List.mem_dedup, List.mem_map]
  rw [load, hready, ← hlive.length_eq, ← List.countP_eq_length_filter]
  simp [IdMap.size, IdMap.values, IdMap.keys]

end Board

end Reckoner
