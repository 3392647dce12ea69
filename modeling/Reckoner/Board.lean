/-
Reckoner.Board — the tasks of the expressions that are being worked out.

The tasks themselves come with three indexes: the tasks that can be handed out,
the one task that waits for the result of each other task, and the number of
results each expression still lacks. A task is handed out lowest id first.
Every operation is a function from board to board.

  1. The board
  2. Looking
  3. Admitting an expression
  4. Handing out a task
  5. Taking a report
  6. Removing an expression
-/
import Reckoner.Expression
import Reckoner.IdMap

namespace Reckoner

/-! ## 1. The board -/

/-- One of the two sides of a task. -/
inductive Side where
  | left
  | right
deriving DecidableEq

/-- The task, and its side, that waits for a result. -/
structure Waiter where
  task : Int
  side : Side
deriving DecidableEq

/-- The tasks of live expressions. -/
structure Board where
  tasks : IdMap Task
  /-- The tasks that can be handed out. -/
  ready : IdMap Unit
  /-- Who waits for the result of a task. -/
  waiters : IdMap Waiter
  /-- How many results a live expression still lacks. -/
  remaining : IdMap Nat
  /-- The id of the next task; ids are never used again. -/
  nextId : Int
deriving DecidableEq

/-- How much is on a board. -/
structure Board.Load where
  tasks : Nat
  runnable : Nat
  computing : Nat
  expressions : Nat
deriving DecidableEq

/-- Why a board refuses a report. -/
inductive BoardError where
  | taskNotFound (id : Int)
  | taskNotClaimed (id : Int) (status : Status)
deriving DecidableEq

/-- What a report led to. -/
inductive Completion where
  /-- The expression goes on; a task may have become ready. -/
  | progressed (unblocked : Option Int)
  /-- The expression has ended. -/
  | finished (expressionId : Int) (outcome : Outcome)
deriving DecidableEq

namespace Task

/-- The task with an operand in the place of one of its sides. -/
def withSide (t : Task) (side : Side) (operand : Operand) : Task :=
  match side with
  | .left => { t with left := operand }
  | .right => { t with right := operand }

/-- The references a task makes, with the side of each. -/
def references (t : Task) : List (Int × Side) :=
  (t.left.dependency?.map fun id => (id, Side.left)).toList ++
    (t.right.dependency?.map fun id => (id, Side.right)).toList

end Task

namespace Board

/-- The board before the first expression. -/
def empty : Board := ⟨.empty, .empty, .empty, .empty, 1⟩

/-! ## 2. Looking -/

/-- The task of an id. -/
def get? (b : Board) (id : Int) : Option Task := b.tasks.get? id

/-- The expression has tasks on the board. -/
def isLive (b : Board) (expressionId : Int) : Bool := b.remaining.contains expressionId

/-- The tasks of an expression, lowest id first. -/
def tasksOf (b : Board) (expressionId : Int) : List Task :=
  b.tasks.values.filter fun t => t.expressionId == expressionId

/-- The task that would be handed out next. -/
def peek? (b : Board) : Option Task := b.ready.least?.bind fun e => b.get? e.1

/-- How much is on the board. -/
def load (b : Board) : Load where
  tasks := b.tasks.size
  runnable := b.ready.size
  computing := (b.tasks.values.filter fun t => t.status = .computing).length
  expressions := b.remaining.size

/-! ## 3. Admitting an expression -/

/-- The board with one more task, which waits for those it refers to. -/
def post (b : Board) (t : Task) : Board where
  tasks := b.tasks.insert t.id t
  ready := if t.isRunnable then b.ready.insert t.id () else b.ready
  waiters := t.references.foldl (fun ws r => ws.insert r.1 ⟨t.id, r.2⟩) b.waiters
  remaining := b.remaining
  nextId := b.nextId

/-- The tasks that a plan would become on this board. -/
def tasksFor (b : Board) (expressionId : Int) (plan : Plan) (timings : Timings) : List Task :=
  plan.tasks expressionId b.nextId timings

/-- The board with the tasks of a plan, under fresh ids. -/
def addPlan (b : Board) (expressionId : Int) (plan : Plan) (timings : Timings) : Board :=
  let posted := (b.tasksFor expressionId plan timings).foldl post b
  { posted with
    remaining :=
      if plan.size = 0 then b.remaining else b.remaining.insert expressionId plan.size
    nextId := b.nextId + plan.size }

/-! ## 4. Handing out a task -/

/-- The ready task of lowest id, now being computed. -/
def claim? (b : Board) : Option (Task × Board) :=
  match b.ready.least? with
  | none => none
  | some (id, _) =>
    match b.get? id with
    | none => none
    | some t =>
      let t := { t with status := .computing }
      some (t, { b with tasks := b.tasks.insert id t, ready := b.ready.erase id })

/-! ## 5. Taking a report -/

/-- The task whose last missing operand a result is, and the board with the
result in its place. -/
def resolve (b : Board) (id : Int) (value : Number) : Option Int × Board :=
  match b.waiters.get? id with
  | none => (none, b)
  | some w =>
    let b := { b with waiters := b.waiters.erase id }
    match b.get? w.task with
    | none => (none, b)
    | some t =>
      let t := t.withSide w.side (.resolved value)
      let b := { b with tasks := b.tasks.insert w.task t }
      if t.isRunnable then (some t.id, { b with ready := b.ready.insert t.id () })
      else (none, b)

/-- Takes the report of a task that is being computed. An error ends its
expression, and so does the last result. -/
def complete (b : Board) (r : Report) : Except BoardError (Completion × Board) :=
  match b.get? r.id with
  | none => .error (.taskNotFound r.id)
  | some t =>
    if t.status ≠ .computing then .error (.taskNotClaimed t.id t.status)
    else
      match r.errorText? with
      | some error =>
        let t' := { t with status := .error, result := some r.result, error := some error }
        .ok (.finished t.expressionId (.failed r.result error),
          { b with tasks := b.tasks.insert r.id t' })
      | none =>
        let t' := { t with status := .done, result := some r.result }
        let left := (b.remaining.get? t.expressionId).getD 1 - 1
        let b := { b with
          tasks := b.tasks.insert r.id t'
          remaining := b.remaining.insert t.expressionId left }
        if left = 0 then .ok (.finished t.expressionId (.done r.result), b)
        else
          let (unblocked, b) := b.resolve r.id r.result
          .ok (.progressed unblocked, b)

/-! ## 6. Removing an expression -/

/-- The ids of the tasks of an expression. -/
def idsOf (b : Board) (expressionId : Int) : List Int :=
  (b.tasksOf expressionId).map (·.id)

/-- The board without the tasks of an expression. -/
def evict (b : Board) (expressionId : Int) : Board :=
  let ids := b.idsOf expressionId
  { b with
    tasks := b.tasks.eraseAll ids
    ready := b.ready.eraseAll ids
    waiters := b.waiters.eraseAll ids
    remaining := b.remaining.erase expressionId }

end Board

/-- The refusal in words. -/
def BoardError.message : BoardError → String
  | .taskNotFound id => "task not found: " ++ Text.integer id
  | .taskNotClaimed id status =>
    "task " ++ Text.integer id ++ " is " ++ status.word ++ ", not computing"

end Reckoner
