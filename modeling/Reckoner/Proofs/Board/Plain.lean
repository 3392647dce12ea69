/-
Reckoner.Proofs.Board.Plain — a board without indexes does the same.

`PlainBoard` keeps a list of tasks and the next id, and nothing else. Operands
are texts; a reference is the text `task` with an id behind it. It looks for the
next task, for the operands that a result goes into and for the end of an
expression by going through all tasks. `trace_eq_plain` says that no sequence of
calls tells it from a `Board`: every call has the same answer, and leaves the
same tasks, the same next id and the same load.

The two agree because of the shape of plans. A task is referred to once, by a
task of its own expression, so the one operand that the index of waiters names
is the only one that a scan finds.

  1. Tasks with operands as texts
  2. The plain board
  3. Calls, and what can be seen of them
  4. Texts that are references
  5. The same tasks
  6. The same answers
  7. Every sequence of calls
-/
import Reckoner.Proofs.Board.Scan
import Reckoner.Proofs.Number.Text

namespace Reckoner

/-! ## 1. Tasks with operands as texts -/

/-- A task whose operands are texts. -/
structure PlainTask where
  id : Int
  expressionId : Int
  left : String
  right : String
  operator : Operator
  durationMs : Nat
  status : Status
  result : Option Number
  error : Option String
deriving DecidableEq

/-- The task with its operands as texts. -/
def Task.plain (t : Task) : PlainTask where
  id := t.id
  expressionId := t.expressionId
  left := t.left.text
  right := t.right.text
  operator := t.operator
  durationMs := t.durationMs
  status := t.status
  result := t.result
  error := t.error

/-- The text refers to a task. -/
def isReference (s : String) : Bool := ['t', 'a', 's', 'k'].isPrefixOf s.toList

namespace PlainTask

/-- The task waits for a worker, and none of its operands is a reference. -/
def isRunnable (t : PlainTask) : Bool :=
  t.status = .pending && !isReference t.left && !isReference t.right

/-- A task of an expression that waits or is being computed. -/
def isOpen (e : Int) (t : PlainTask) : Bool :=
  t.expressionId == e && (t.status = .pending || t.status = .computing)

/-- The task with a text in the place of each operand that is another text. -/
def rewriteOperands (t : PlainTask) (reference value : String) : PlainTask :=
  { t with
    left := if t.left = reference then value else t.left
    right := if t.right = reference then value else t.right }

/-- What the report of a value makes of a task. -/
def afterValue (r : Report) (t : PlainTask) : PlainTask :=
  (if t.id = r.id then { t with status := .done, result := some r.result } else t).rewriteOperands
    ("task" ++ Text.integer r.id) r.result.sixPlaces

end PlainTask

/-! ## 2. The plain board -/

/-- The live tasks in ascending order of their ids, and the id of the next one. -/
structure PlainBoard where
  tasks : List PlainTask
  nextId : Int

namespace PlainBoard

/-- The board before the first expression. -/
def empty : PlainBoard := ⟨[], 1⟩

/-- The expression has tasks on the board. -/
def isLive (p : PlainBoard) (expressionId : Int) : Bool :=
  p.tasks.any fun t => t.expressionId == expressionId

/-- The board with the tasks of a plan, under fresh ids. -/
def addPlan (p : PlainBoard) (expressionId : Int) (plan : Plan) (timings : Timings) :
    PlainBoard where
  tasks := p.tasks ++ (plan.tasks expressionId p.nextId timings).map Task.plain
  nextId := p.nextId + plan.size

/-- The runnable task of lowest id. -/
def peek? (p : PlainBoard) : Option PlainTask := p.tasks.find? PlainTask.isRunnable

/-- The board once the task of an id is out with a worker. -/
def handOut (p : PlainBoard) (id : Int) : PlainBoard :=
  { p with tasks := p.tasks.map fun t => if t.id = id then { t with status := .computing } else t }

/-- The runnable task of lowest id, now being computed. -/
def claim? (p : PlainBoard) : Option (PlainTask × PlainBoard) :=
  p.peek?.map fun t => ({ t with status := .computing }, p.handOut t.id)

/-- The board without the tasks of an expression. -/
def evict (p : PlainBoard) (expressionId : Int) : PlainBoard :=
  { p with tasks := p.tasks.filter fun t => t.expressionId != expressionId }

/-- Takes the report of a task that is being computed. What ends an expression
also removes its tasks. -/
def complete (p : PlainBoard) (r : Report) : Except BoardError (Completion × PlainBoard) :=
  match p.tasks.find? fun t => t.id == r.id with
  | none => .error (.taskNotFound r.id)
  | some t =>
    if t.status ≠ .computing then .error (.taskNotClaimed t.id t.status)
    else
      match r.errorText? with
      | some error =>
        .ok (.finished t.expressionId (.failed r.result error), p.evict t.expressionId)
      | none =>
        let q := { p with tasks := p.tasks.map (PlainTask.afterValue r) }
        if q.tasks.any (PlainTask.isOpen t.expressionId) then
          let unblocked := p.tasks.find? fun u => !u.isRunnable && (u.afterValue r).isRunnable
          .ok (.progressed (unblocked.map (·.id)), q)
        else .ok (.finished t.expressionId (.done r.result), q.evict t.expressionId)

/-- How much is on the board. -/
def load (p : PlainBoard) : Board.Load where
  tasks := p.tasks.length
  runnable := p.tasks.countP PlainTask.isRunnable
  computing := p.tasks.countP fun t => t.status = .computing
  expressions := (p.tasks.map (·.expressionId)).dedup.length

end PlainBoard

/-! ## 3. Calls, and what can be seen of them -/

/-- What a dispatcher asks of a board. -/
inductive BoardCall where
  | addPlan (expressionId : Int) (tokens : List String) (timings : Timings)
  | peek
  | claim
  | report (r : Report)

/-- What a board answers. -/
inductive BoardAnswer where
  /-- The tasks of the plan are on the board. -/
  | admitted
  /-- The tokens are no plan, or the expression is live. -/
  | ignored
  | task (t : Option PlainTask)
  | taken (c : Completion)
  | refused (e : BoardError)

/-- What can be seen once a call is answered. -/
structure BoardView where
  answer : BoardAnswer
  load : Board.Load
  tasks : List PlainTask
  nextId : Int

namespace Board

/-- Answers a call as a dispatcher makes it: a live expression is not admitted
again, and one that has ended is removed at once. -/
def serve (b : Board) : BoardCall → BoardAnswer × Board
  | .addPlan e tokens timings =>
    match Plan.ofTokens tokens with
    | .error _ => (.ignored, b)
    | .ok plan => if b.isLive e then (.ignored, b) else (.admitted, b.addPlan e plan timings)
  | .peek => (.task (b.peek?.map Task.plain), b)
  | .claim =>
    match b.claim? with
    | none => (.task none, b)
    | some (t, b) => (.task (some t.plain), b)
  | .report r =>
    match b.complete r with
    | .error e => (.refused e, b)
    | .ok (.progressed unblocked, b) => (.taken (.progressed unblocked), b)
    | .ok (.finished e o, b) => (.taken (.finished e o), b.evict e)

/-- What is seen of some calls, one after the other. -/
def trace (b : Board) : List BoardCall → List BoardView
  | [] => []
  | c :: cs =>
    let (answer, b) := b.serve c
    ⟨answer, b.load, b.tasks.values.map Task.plain, b.nextId⟩ :: b.trace cs

end Board

namespace PlainBoard

/-- Answers a call. -/
def serve (p : PlainBoard) : BoardCall → BoardAnswer × PlainBoard
  | .addPlan e tokens timings =>
    match Plan.ofTokens tokens with
    | .error _ => (.ignored, p)
    | .ok plan => if p.isLive e then (.ignored, p) else (.admitted, p.addPlan e plan timings)
  | .peek => (.task p.peek?, p)
  | .claim =>
    match p.claim? with
    | none => (.task none, p)
    | some (t, p) => (.task (some t), p)
  | .report r =>
    match p.complete r with
    | .error e => (.refused e, p)
    | .ok (c, p) => (.taken c, p)

/-- What is seen of some calls, one after the other. -/
def trace (p : PlainBoard) : List BoardCall → List BoardView
  | [] => []
  | c :: cs =>
    let (answer, p) := p.serve c
    ⟨answer, p.load, p.tasks, p.nextId⟩ :: p.trace cs

end PlainBoard

/-! ## 4. Texts that are references -/

theorem toList_text_pending (id : Int) :
    (Operand.pending id).text.toList = ['t', 'a', 's', 'k'] ++ Text.integerChars id := by
  simp [Operand.text, Text.integer]

theorem isReference_pending (id : Int) : isReference (Operand.pending id).text = true := by
  rw [isReference, toList_text_pending]
  rfl

theorem text_pending_injective {a b : Int}
    (h : (Operand.pending a).text = (Operand.pending b).text) : a = b := by
  have hchars := congrArg String.toList h
  rw [toList_text_pending, toList_text_pending, List.append_cancel_left_eq] at hchars
  have hread := congrArg Text.wholeNumber? hchars
  rw [Text.wholeNumber?_integerChars, Text.wholeNumber?_integerChars] at hread
  exact Option.some.inj hread

/-- A text that starts with another letter than `t` is no reference. -/
theorem isReference_eq_false {s : String} {c : Char} {cs : List Char} (h : s.toList = c :: cs)
    (hc : c ≠ 't') : isReference s = false := by
  rw [isReference, h, List.isPrefixOf, beq_false_of_ne hc.symm, Bool.false_and]

theorem isReference_of_isLiteral {s : String} (h : Plan.isLiteral s = true) :
    isReference s = false := by
  simp only [Plan.isLiteral, Bool.and_eq_true, Number.ofText?] at h
  cases hs : s.toList with
  | nil => simp [isReference, hs]
  | cons c cs =>
    refine isReference_eq_false hs ?_
    rintro rfl
    rw [hs, Number.ofChars?_t] at h
    exact absurd h.2 (by simp)

theorem isReference_sixPlaces (x : Number) : isReference x.sixPlaces = false := by
  have hfixed (n : Nat) :
      ∃ c cs, Number.sixPlacesOfMillionths n = c :: cs ∧ c ≠ 't' := by
    obtain ⟨c, cs, h, hc⟩ := Text.naturalChars_head (n / 10 ^ 6)
    refine ⟨c, _, by rw [Number.sixPlacesOfMillionths, h, List.cons_append], ?_⟩
    rintro rfl
    exact absurd hc (by decide)
  have hchars : ∃ c cs, x.sixPlacesChars = c :: cs ∧ c ≠ 't' := by
    cases x with
    | nan => exact ⟨'N', _, rfl, by decide⟩
    | infinite negative =>
      cases negative with
      | true => exact ⟨'-', _, rfl, by decide⟩
      | false => exact ⟨'i', _, rfl, by decide⟩
    | finite negative m =>
      cases negative with
      | true => exact ⟨'-', _, rfl, by decide⟩
      | false => exact hfixed _
  obtain ⟨c, cs, h, hc⟩ := hchars
  exact isReference_eq_false (by rw [Number.sixPlaces, String.toList_ofList, h]) hc

namespace Task

/-- Each literal of the task is a text of this kind. -/
def LiteralsAre (P : String → Prop) (t : Task) : Prop :=
  ∀ side s, t.operand side = .literal s → P s

section LiteralsAre

variable {P : String → Prop} {t : Task}

theorem LiteralsAre.given (h : t.LiteralsAre P) (hvalue : ∀ x : Number, P x.sixPlaces) (dep : Int)
    (value : Number) : (t.given dep value).LiteralsAre P := by
  intro side s hs
  rw [operand_given, Operand.given] at hs
  split at hs
  · cases hs
    exact hvalue value
  · exact h side s hs

theorem LiteralsAre.reported (h : t.LiteralsAre P) (r : Report) :
    (Board.reported r t).LiteralsAre P := fun side s hs =>
  h side s (by rwa [Board.operand_reported] at hs)

/-- The literals of a plan are the literals among its tokens. -/
theorem literalsAre_of_mem_tasksFor (hliteral : ∀ s, Plan.isLiteral s = true → P s)
    {tokens : List String} {plan : Plan} (h : Plan.ofTokens tokens = .ok plan) {b : Board} {e : Int}
    {timings : Timings} (ht : t ∈ b.tasksFor e plan timings) : t.LiteralsAre P := by
  obtain ⟨tree, hnumeric, -, rfl⟩ := Plan.ofTokens_eq_ok_iff.1 h
  obtain ⟨i, n, hn, rfl⟩ := Plan.exists_of_mem_tasks ht
  obtain ⟨hl, hr⟩ := hnumeric.isLiteral_of_mem_nodes (List.mem_of_getElem? hn)
  intro side s hs
  refine hliteral s ?_
  cases side with
  | left => exact hl s (Plan.Source.literal_of_operand hs)
  | right => exact hr s (Plan.Source.literal_of_operand hs)

end LiteralsAre

/-- No literal of the task reads like a reference. -/
def Unambiguous (t : Task) : Prop :=
  ∀ side s, t.operand side = .literal s → isReference s = false

theorem isReference_text {t : Task} (h : t.Unambiguous) (side : Side) :
    isReference (t.operand side).text = !(t.operand side).isLiteral := by
  cases ho : t.operand side with
  | literal s => exact h side s ho
  | pending id => exact isReference_pending id

theorem isRunnable_plain {t : Task} (h : t.Unambiguous) : t.plain.isRunnable = t.isRunnable := by
  have hl : isReference t.left.text = !t.left.isLiteral := isReference_text h .left
  have hr : isReference t.right.text = !t.right.isLiteral := isReference_text h .right
  rw [PlainTask.isRunnable, isRunnable]
  show (decide (t.status = .pending) && !isReference t.left.text && !isReference t.right.text) = _
  rw [hl, hr, Bool.not_not, Bool.not_not]

/-- The operand that reads like a reference to a task is one. -/
theorem text_eq_text_pending_iff {t : Task} (h : t.Unambiguous) (side : Side) (dep : Int) :
    (t.operand side).text = (Operand.pending dep).text ↔ t.operand side = .pending dep := by
  constructor
  · intro htext
    cases ho : t.operand side with
    | literal s =>
      have hs := h side s ho
      rw [ho] at htext
      rw [show s = (Operand.pending dep).text from htext, isReference_pending] at hs
      cases hs
    | pending id =>
      rw [ho] at htext
      rw [text_pending_injective htext]
  · intro ho
    rw [ho]

theorem plain_given {t : Task} (h : t.Unambiguous) (dep : Int) (value : Number) :
    (t.given dep value).plain =
      t.plain.rewriteOperands ("task" ++ Text.integer dep) value.sixPlaces := by
  have hgiven : ∀ side, ((t.operand side).given dep value).text =
      if (t.operand side).text = (Operand.pending dep).text then value.sixPlaces
      else (t.operand side).text := by
    intro side
    have hiff := text_eq_text_pending_iff h side dep
    rw [Operand.given]
    by_cases ho : t.operand side = .pending dep
    · rw [if_pos ho, if_pos (hiff.2 ho)]
      rfl
    · rw [if_neg ho, if_neg fun htext => ho (hiff.1 htext)]
  rw [given, plain, PlainTask.rewriteOperands]
  congr 1
  · exact hgiven .left
  · exact hgiven .right

theorem Unambiguous.given {t : Task} (h : t.Unambiguous) (dep : Int) (value : Number) :
    (t.given dep value).Unambiguous :=
  LiteralsAre.given h isReference_sixPlaces dep value

theorem Unambiguous.reported {t : Task} (h : t.Unambiguous) (r : Report) :
    (Board.reported r t).Unambiguous :=
  LiteralsAre.reported h r

theorem Unambiguous.handedOut {t : Task} (h : t.Unambiguous) (id : Int) :
    (Board.handedOut id t).Unambiguous := fun side s hs =>
  h side s (by rwa [Board.operand_handedOut] at hs)

end Task

theorem unambiguous_of_mem_tasksFor {tokens : List String} {plan : Plan}
    (h : Plan.ofTokens tokens = .ok plan) {b : Board} {e : Int} {timings : Timings} {t : Task}
    (ht : t ∈ b.tasksFor e plan timings) : t.Unambiguous :=
  Task.literalsAre_of_mem_tasksFor (fun _ => isReference_of_isLiteral) h ht

/-! ## 5. The same tasks -/

/-- A plain board and a board that a dispatcher has reached, with the same tasks. -/
structure Agree (p : PlainBoard) (b : Board) : Prop where
  served : b.Served
  unambiguous : ∀ t ∈ b.tasks.values, t.Unambiguous
  tasks : p.tasks = b.tasks.values.map Task.plain
  nextId : p.nextId = b.nextId

namespace Agree

variable {p : PlainBoard} {b b' : Board}

theorem coherent (h : Agree p b) : b.Coherent := h.served.reachable.coherent

theorem counted (h : Agree p b) : b.Counted := h.served.counted

theorem isLive_eq (h : Agree p b) (e : Int) : p.isLive e = b.isLive e := by
  rw [Bool.eq_iff_iff, Board.isLive_iff_exists_mem h.coherent, PlainBoard.isLive, h.tasks,
    List.any_map, List.any_eq_true]
  simp only [Function.comp_apply, beq_iff_eq, Task.plain]

theorem isRunnable_plain (h : Agree p b) {t : Task} (ht : t ∈ b.tasks.values) :
    t.plain.isRunnable = t.isRunnable :=
  Task.isRunnable_plain (h.unambiguous t ht)

theorem peek?_eq (h : Agree p b) : p.peek? = b.peek?.map Task.plain := by
  rw [PlainBoard.peek?, h.tasks, List.find?_map, Board.peek?_eq_find? h.coherent]
  congr 1
  exact List.find?_congr fun t ht => h.isRunnable_plain ht

theorem find?_id (h : Agree p b) (id : Int) :
    p.tasks.find? (fun t => t.id == id) = (b.get? id).map Task.plain := by
  rw [h.tasks, List.find?_map, ← Board.find?_id h.coherent]
  rfl

theorem load_eq (h : Agree p b) : p.load = b.load := by
  have hrunnable : p.tasks.countP PlainTask.isRunnable = b.tasks.values.countP Task.isRunnable := by
    rw [h.tasks, List.countP_map]
    exact List.countP_congr fun t ht => by rw [Function.comp_apply, h.isRunnable_plain ht]
  rw [Board.load_eq h.coherent, PlainBoard.load, hrunnable, h.tasks, List.length_map,
    List.countP_map, List.map_map]
  rfl

/-! ## 6. The same answers -/

theorem afterValue_plain {t : Task} (h : t.Unambiguous) (r : Report) :
    t.plain.afterValue r = (Board.afterValue r t).plain := by
  have hdone : (if t.plain.id = r.id then
      { t.plain with status := .done, result := some r.result } else t.plain) =
      (Board.reported r t).plain := by
    show (if t.id = r.id then _ else _) = _
    rw [Board.reported]
    split <;> rfl
  rw [PlainTask.afterValue, hdone, Board.afterValue, Task.plain_given (h.reported r)]

theorem map_afterValue (h : Agree p b) (r : Report) :
    p.tasks.map (PlainTask.afterValue r) =
      (b.tasks.values.map (Board.afterValue r)).map Task.plain := by
  rw [h.tasks, List.map_map, List.map_map]
  exact List.map_congr_left fun t ht => afterValue_plain (h.unambiguous t ht) r

theorem unambiguous_afterValue {t : Task} (h : t.Unambiguous) (r : Report) :
    (Board.afterValue r t).Unambiguous :=
  (h.reported r).given _ _

theorem isOpen_plain (e : Int) (t : Task) : t.plain.isOpen e = Board.isOpen e t := by
  have hstatus : (decide (t.status = .pending) || decide (t.status = .computing)) =
      !t.status.isFinal := by
    cases t.status <;> rfl
  rw [Board.isOpen, ← hstatus]
  rfl

theorem unblocked_eq (h : Agree p b) (r : Report) :
    (p.tasks.find? fun u => !u.isRunnable && (u.afterValue r).isRunnable).map (·.id) =
      (b.tasks.values.find? fun u => !u.isRunnable && (Board.afterValue r u).isRunnable).map
        (·.id) := by
  rw [h.tasks, List.find?_map, Option.map_map]
  have hsame : b.tasks.values.find? ((fun u : PlainTask => !u.isRunnable &&
        (u.afterValue r).isRunnable) ∘ Task.plain) =
      b.tasks.values.find? fun u => !u.isRunnable && (Board.afterValue r u).isRunnable := by
    refine List.find?_congr fun t ht => ?_
    have ht' := h.unambiguous t ht
    rw [Function.comp_apply, Task.isRunnable_plain ht', afterValue_plain ht',
      Task.isRunnable_plain (unambiguous_afterValue ht' r)]
  rw [hsame]
  rfl

theorem any_isOpen_eq (h : Agree p b) (r : Report) (e : Int) :
    (p.tasks.map (PlainTask.afterValue r)).any (PlainTask.isOpen e) =
      (b.tasks.values.map (Board.afterValue r)).any (Board.isOpen e) := by
  rw [h.map_afterValue, List.any_map]
  exact congrArg (List.any _) (funext (isOpen_plain e))

/-- What a plain board makes of a report, as it is seen on the other board. -/
theorem complete_eq (h : Agree p b) (r : Report) :
    p.complete r =
      match b.get? r.id with
      | none => .error (.taskNotFound r.id)
      | some t =>
        if t.status ≠ .computing then .error (.taskNotClaimed t.id t.status)
        else
          match r.errorText? with
          | some error =>
            .ok (.finished t.expressionId (.failed r.result error), p.evict t.expressionId)
          | none =>
            let q := { p with tasks := p.tasks.map (PlainTask.afterValue r) }
            if (b.tasks.values.map (Board.afterValue r)).any (Board.isOpen t.expressionId) then
              let unblocked := b.tasks.values.find? fun u =>
                !u.isRunnable && (Board.afterValue r u).isRunnable
              .ok (.progressed (unblocked.map (·.id)), q)
            else .ok (.finished t.expressionId (.done r.result), q.evict t.expressionId) := by
  rw [PlainBoard.complete, h.find?_id]
  cases b.get? r.id with
  | none => rfl
  | some t =>
    simp only [← h.any_isOpen_eq, ← h.unblocked_eq]
    rfl

/-- The admission of an expression that is not live. -/
theorem addPlan (h : Agree p b) {e : Int} {tokens : List String} {plan : Plan} {timings : Timings}
    (hplan : Plan.ofTokens tokens = .ok plan) (hlive : b.isLive e = false) :
    Agree (p.addPlan e plan timings) (b.addPlan e plan timings) where
  served := .addPlan e timings h.served hplan hlive
  unambiguous t ht := by
    rw [h.coherent.values_addPlan (Board.linked_tasksFor hplan b e timings)] at ht
    rcases List.mem_append.1 ht with ht | ht
    · exact h.unambiguous t ht
    · exact unambiguous_of_mem_tasksFor hplan ht
  tasks := by
    rw [h.coherent.values_addPlan (Board.linked_tasksFor hplan b e timings), List.map_append,
      ← h.tasks, PlainBoard.addPlan, h.nextId]
    rfl
  nextId := by
    rw [Board.addPlan_eq, PlainBoard.addPlan, h.nextId]

theorem claim (h : Agree p b) {t : Task} (hpeek : b.peek? = some t) :
    Agree (p.handOut t.id) (b.handOut t.id t) := by
  have hmem : t ∈ b.tasks.values := by
    rw [Board.peek?_eq_find? h.coherent] at hpeek
    exact List.mem_of_find?_eq_some hpeek
  have hvalues := Board.values_handOut h.coherent ((Board.mem_tasks_iff h.coherent).1 hmem)
  have hclaim : b.claim? = some ({ t with status := .computing }, b.handOut t.id t) := by
    rw [Board.claim?_eq h.coherent, hpeek]
    rfl
  refine ⟨.claim h.served hclaim, ?_, ?_, h.nextId⟩
  · rw [hvalues]
    exact List.forall_mem_map.2 fun u hu => (h.unambiguous u hu).handedOut t.id
  · rw [hvalues, PlainBoard.handOut, h.tasks, List.map_map, List.map_map]
    refine List.map_congr_left fun u _ => ?_
    show (if u.id = t.id then _ else _) = (Board.handedOut t.id u).plain
    rw [Board.handedOut]
    split <;> rfl

/-- A report that does not end an expression. -/
theorem progressed (h : Agree p b) {r : Report} {t : Task} (ht : b.get? r.id = some t)
    (hs : t.status = .computing) {unblocked : Option Int}
    (hcomplete : b.complete r =
      .ok (.progressed unblocked, ((b.markDone r t).resolve r.id r.result).2)) :
    Agree { p with tasks := p.tasks.map (PlainTask.afterValue r) }
      ((b.markDone r t).resolve r.id r.result).2 := by
  have hvalues := Board.values_afterValue h.coherent ht hs
  refine ⟨.progressed h.served hcomplete, ?_, ?_, ?_⟩
  · rw [hvalues]
    exact List.forall_mem_map.2 fun u hu => unambiguous_afterValue (h.unambiguous u hu) r
  · rw [hvalues]
    exact h.map_afterValue r
  · rw [Board.nextId_resolve]
    exact h.nextId

/-- A report that ends an expression. -/
theorem finished (h : Agree p b) {r : Report} {t : Task} (ht : b.get? r.id = some t) {o : Outcome}
    (hcomplete : b.complete r = .ok (.finished t.expressionId o, b')) :
    Agree (p.evict t.expressionId) (b'.evict t.expressionId) := by
  obtain ⟨u, hu, hs, hc⟩ := Board.completes_of_complete hcomplete
  rw [ht] at hu
  cases hu
  have hvalues := Board.values_evict_of_completes h.coherent ht hs hc rfl
  have hnext : b'.nextId = b.nextId := by cases hc <;> rfl
  refine ⟨.finished h.served hcomplete, ?_, ?_, h.nextId.trans hnext.symm⟩
  · rw [hvalues]
    exact fun u hu => h.unambiguous u (List.mem_filter.1 hu).1
  · rw [hvalues, PlainBoard.evict, h.tasks, List.filter_map]
    rfl

/-- What the last result changes is gone with the tasks of its expression. -/
theorem evict_afterValue (h : Agree p b) {r : Report} {t : Task} (ht : b.get? r.id = some t) :
    PlainBoard.evict { p with tasks := p.tasks.map (PlainTask.afterValue r) } t.expressionId =
      p.evict t.expressionId := by
  have hplain : ∀ ts : List Task, (ts.map Task.plain).filter
      (fun u => u.expressionId != t.expressionId) =
      (ts.filter fun u => u.expressionId != t.expressionId).map Task.plain :=
    fun _ => List.filter_map
  rw [PlainBoard.evict, PlainBoard.evict, h.map_afterValue r, h.tasks, hplain, hplain,
    Board.filter_afterValue h.coherent ht]

end Agree

/-- A report has the same answer, and leaves the same tasks. -/
theorem Agree.report {p : PlainBoard} {b : Board} (h : Agree p b) (r : Report) :
    (p.serve (.report r)).1 = (b.serve (.report r)).1 ∧
      Agree (p.serve (.report r)).2 (b.serve (.report r)).2 := by
  have hboard := Board.complete_eq b r
  have hplain := h.complete_eq r
  cases ht : b.get? r.id with
  | none =>
    simp only [ht] at hboard hplain
    rw [PlainBoard.serve, Board.serve, hboard, hplain]
    exact ⟨rfl, h⟩
  | some t =>
    simp only [ht] at hboard hplain
    by_cases hs : t.status = .computing
    · rw [if_neg (not_not.2 hs)] at hboard hplain
      cases herror : r.errorText? with
      | some error =>
        simp only [herror] at hboard hplain
        rw [PlainBoard.serve, Board.serve, hboard, hplain]
        exact ⟨rfl, h.finished ht hboard⟩
      | none =>
        simp only [herror] at hboard hplain
        have hleft := Board.none_left_iff h.coherent h.counted ht hs
        by_cases hzero : b.lacking t.expressionId - 1 = 0
        · rw [if_pos hzero] at hboard
          rw [hleft.1 hzero, if_neg Bool.false_ne_true] at hplain
          rw [PlainBoard.serve, Board.serve, hboard, hplain]
          exact ⟨rfl, h.evict_afterValue ht ▸ h.finished ht hboard⟩
        · rw [if_neg hzero] at hboard
          rw [if_pos (Bool.not_eq_false _ ▸ mt hleft.2 hzero),
            ← Board.unblocked_afterValue h.coherent ht hs] at hplain
          rw [PlainBoard.serve, Board.serve, hboard, hplain]
          exact ⟨rfl, h.progressed ht hs hboard⟩
    · rw [if_pos hs] at hboard hplain
      rw [PlainBoard.serve, Board.serve, hboard, hplain]
      exact ⟨rfl, h⟩

/-- Every call has the same answer, and leaves the same tasks. -/
theorem Agree.serve {p : PlainBoard} {b : Board} (h : Agree p b) (c : BoardCall) :
    (p.serve c).1 = (b.serve c).1 ∧ Agree (p.serve c).2 (b.serve c).2 := by
  cases c with
  | addPlan e tokens timings =>
    rw [PlainBoard.serve, Board.serve, h.isLive_eq]
    cases hplan : Plan.ofTokens tokens with
    | error err => exact ⟨rfl, h⟩
    | ok plan =>
      cases hlive : b.isLive e with
      | true => exact ⟨rfl, h⟩
      | false => exact ⟨rfl, h.addPlan hplan hlive⟩
  | peek =>
    rw [PlainBoard.serve, Board.serve, h.peek?_eq]
    exact ⟨rfl, h⟩
  | claim =>
    rw [PlainBoard.serve, Board.serve, PlainBoard.claim?, h.peek?_eq, Board.claim?_eq h.coherent]
    cases hpeek : b.peek? with
    | none => exact ⟨rfl, h⟩
    | some t => exact ⟨rfl, h.claim hpeek⟩
  | report r => exact h.report r

/-! ## 7. Every sequence of calls -/

theorem agree_empty : Agree .empty .empty where
  served := .empty
  unambiguous _ ht := nomatch ht
  tasks := rfl
  nextId := rfl

theorem Agree.trace {p : PlainBoard} {b : Board} (h : Agree p b) (calls : List BoardCall) :
    p.trace calls = b.trace calls := by
  induction calls generalizing p b with
  | nil => rfl
  | cons c cs ih =>
    obtain ⟨hanswer, hagree⟩ := h.serve c
    rw [PlainBoard.trace, Board.trace]
    simp only
    rw [hanswer, hagree.load_eq, hagree.tasks, hagree.nextId, ih hagree]

/-- The indexes of a board cannot be seen from outside: after each of any calls
the answers, the tasks, the next id and the load are those of a board without. -/
theorem trace_eq_plain (calls : List BoardCall) :
    Board.empty.trace calls = PlainBoard.empty.trace calls :=
  (agree_empty.trace calls).symm

end Reckoner
