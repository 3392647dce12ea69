/-
Reckoner.Worker.Agent — fetching, carrying out and reporting.

An agent handles one task at a time. A task that cannot be read is reported as
failed if its id is known. Several agents that share a source take turns.

  1. One task
  2. A pool of agents
  3. A drain of a dispatcher
-/
import Reckoner.Worker.Evaluate
import Reckoner.Worker.Source

namespace Reckoner

namespace TaskSource

variable {σ : Type}

/-! ## 1. One task -/

/-- Fetches a task, carries it out and reports on it. The answer says whether
there was anything to do. -/
def runOnce (source : TaskSource σ) (s : σ) : Except SourceError Bool × σ :=
  match source.fetch s with
  | (.ok none, s) => (.ok false, s)
  | (.ok (some task), s) =>
    let (answer, s) := source.submit task.execute s
    (answer.map fun _ => true, s)
  | (.error (.malformed (some id) reason), s) =>
    let (answer, s) := source.submit (.failure id reason) s
    (answer.map fun _ => true, s)
  | (.error e, s) => (.error e, s)

/-! ## 2. A pool of agents -/

/-- A turn of one agent: it reports on the task it holds, if any, and fetches
another. What goes wrong leaves it without a task. -/
def turn (source : TaskSource σ) (held : Option Task) (s : σ) : Option Task × σ :=
  match held with
  | some task =>
    match source.submit task.execute s with
    | (.error _, s) => (none, s)
    | (.ok (), s) => fetchTask s
  | none => fetchTask s
where
  /-- Fetches a task to hold. -/
  fetchTask (s : σ) : Option Task × σ :=
    match source.fetch s with
    | (.ok task, s) => (task, s)
    | (.error (.malformed (some id) reason), s) =>
      let (_, s) := source.submit (.failure id reason) s
      (none, s)
    | (.error _, s) => (none, s)

/-- One turn of each agent. -/
def round (source : TaskSource σ) : List (Option Task) → σ → List (Option Task) × σ
  | [], s => ([], s)
  | held :: others, s =>
    let (held, s) := source.turn held s
    let (others, s) := source.round others s
    (held :: others, s)

/-- At most `fuel` rounds, up to one after which `finished` holds. -/
def runPool (source : TaskSource σ) (finished : σ → Bool) :
    Nat → List (Option Task) → σ → σ
  | 0, _, s => s
  | fuel + 1, held, s =>
    if finished s then s
    else
      let (held, s) := source.round held s
      source.runPool finished fuel held s

end TaskSource

namespace Dispatcher

variable {σ : Type} [Ledger σ]

/-! ## 3. A drain of a dispatcher -/

/-- What a drain did with a task. -/
structure Handled where
  task : Task
  result : Number
  error : Option String

/-- Claims, carries out and reports until one of these fails, or `fuel` tasks
have been handled: the tasks, the error that ended it, and the dispatcher. -/
def drain : Nat → Dispatcher σ → List Handled × Option DispatchError × Dispatcher σ
  | 0, d => ([], none, d)
  | fuel + 1, d =>
    match d.claim with
    | (.error e, d) => ([], some e, d)
    | (.ok task, d) =>
      let r := task.execute
      match d.report r with
      | (.error e, d) => ([⟨task, r.result, r.error⟩], some e, d)
      | (.ok (), d) =>
        let (rest, stop, d) := drain fuel d
        (⟨task, r.result, r.error⟩ :: rest, stop, d)

/-- A drain of everything on the board: no task is handled twice. -/
def drainAll (d : Dispatcher σ) : List Handled × Option DispatchError × Dispatcher σ :=
  d.drain (d.board.tasks.size + 1)

/-- Lets a number of agents, at least one, work until no task is live. Each
round of turns hands out or reports on a task as long as the ledger takes the
calls, and `patience` rounds are allowed for calls that it refuses. -/
def runAgents (agents patience : Nat) (d : Dispatcher σ) : Dispatcher σ :=
  (source σ).runPool (fun d => d.board.tasks.size = 0)
    (2 * d.board.tasks.size + patience + 1) (List.replicate (max agents 1) none) d

end Dispatcher

end Reckoner
