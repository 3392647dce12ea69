/-
Reckoner.Dispatcher — from submissions to tasks, and from reports to outcomes.

A dispatcher keeps the board of live tasks and its counts, and records
expressions in a ledger. A text that is no formula reaches neither. Handing out
a task records first that its expression has started, so a refused call leaves
the task where it was. When an expression ends its tasks leave the board,
whether or not the ledger takes the outcome.

  1. The dispatcher
  2. Submitting
  3. Handing out
  4. Reporting
  5. Recovering
-/
import Reckoner.Board
import Reckoner.Ledger.Basic
import Reckoner.Metrics

namespace Reckoner

/-! ## 1. The dispatcher -/

/-- A dispatcher and its ledger. -/
structure Dispatcher (σ : Type) where
  timings : Timings
  board : Board
  metrics : Metrics
  ledger : σ

/-- Why a dispatcher does not do what it was asked. -/
inductive DispatchError where
  | formula (e : FormulaError)
  | noTaskAvailable
  | board (e : BoardError)
  | ledger (e : LedgerError)
deriving DecidableEq

/-- The error in words. -/
def DispatchError.message : DispatchError → String
  | .formula e => e.message
  | .noTaskAvailable => "no tasks available"
  | .board e => e.message
  | .ledger e => e.message

/-- What became of the unfinished expressions of a ledger. -/
structure RecoveryReport where
  replayed : Nat := 0
  rejected : Nat := 0
  skipped : Nat := 0
deriving DecidableEq

namespace Dispatcher

variable {σ : Type}

/-- A dispatcher with an empty board over a ledger. -/
def start (timings : Timings) (ledger : σ) : Dispatcher σ := ⟨timings, .empty, {}, ledger⟩

/-- The dispatcher after a restart: only its ledger is left. -/
def restart (d : Dispatcher σ) : Dispatcher σ := start d.timings d.ledger

variable [Ledger σ]

/-! ## 2. Submitting -/

/-- Takes up an expression that the ledger keeps. A formula without operators
ends at once; the tasks of any other go on the board. -/
def enqueue (d : Dispatcher σ) (id : Int) (plan : Plan) :
    Except DispatchError Unit × Dispatcher σ :=
  match plan.constant? with
  | some value =>
    match Ledger.finish id (.done value) d.ledger with
    | (.error e, ledger) => (.error (.ledger e), { d with ledger })
    | (.ok (), ledger) =>
      (.ok (), { d with ledger, metrics := d.metrics.recordEnd (.done value) })
  | none => (.ok (), { d with board := d.board.addPlan id plan d.timings })

/-- Takes a formula from a user and gives its id. -/
def submit (d : Dispatcher σ) (text : String) (owner : Int) :
    Except DispatchError Int × Dispatcher σ :=
  match Plan.ofFormula text with
  | .error e => (.error (.formula e), d)
  | .ok plan =>
    match Ledger.insert ⟨text, owner⟩ d.ledger with
    | (.error e, ledger) => (.error (.ledger e), { d with ledger })
    | (.ok id, ledger) =>
      match enqueue { d with ledger } id plan with
      | (.error e, d) => (.error e, d)
      | (.ok (), d) => (.ok id, { d with metrics := d.metrics.recordSubmission })

/-! ## 3. Handing out -/

/-- Hands out the runnable task of lowest id. -/
def claim (d : Dispatcher σ) : Except DispatchError Task × Dispatcher σ :=
  match d.board.peek? with
  | none => (.error .noTaskAvailable, d)
  | some next =>
    match Ledger.start next.expressionId d.ledger with
    | (.error e, ledger) => (.error (.ledger e), { d with ledger })
    | (.ok (), ledger) =>
      match d.board.claim? with
      | none => (.error .noTaskAvailable, { d with ledger })
      | some (task, board) =>
        (.ok task, { d with ledger, board, metrics := d.metrics.recordDispatch task.id })

/-! ## 4. Reporting -/

/-- Takes the report on a task that is out with a worker. -/
def report (d : Dispatcher σ) (r : Report) : Except DispatchError Unit × Dispatcher σ :=
  match d.board.complete r with
  | .error e => (.error (.board e), d)
  | .ok (completion, board) =>
    let metrics := d.metrics.recordReport r.id r.errorText?.isSome
    match completion with
    | .progressed _ => (.ok (), { d with board, metrics })
    | .finished id outcome =>
      let (answer, ledger) := Ledger.finish id outcome d.ledger
      (answer.mapError .ledger,
        { d with
          ledger
          board := board.evict id
          metrics := (metrics.forget (board.idsOf id)).recordEnd outcome })

/-! ## 5. Recovering -/

/-- Takes up one unfinished expression again. A text that is no formula ends in
an error; an expression that is live already is skipped. -/
def recoverOne (d : Dispatcher σ) (counts : RecoveryReport) (e : Expression) :
    Except DispatchError RecoveryReport × Dispatcher σ :=
  if d.board.isLive e.id then (.ok { counts with skipped := counts.skipped + 1 }, d)
  else
    match Plan.ofFormula e.text with
    | .ok plan =>
      match d.enqueue e.id plan with
      | (.error err, d) => (.error err, d)
      | (.ok (), d) => (.ok { counts with replayed := counts.replayed + 1 }, d)
    | .error err =>
      match Ledger.finish e.id (.failed .zero err.message) d.ledger with
      | (.error err, ledger) => (.error (.ledger err), { d with ledger })
      | (.ok (), ledger) =>
        (.ok { counts with rejected := counts.rejected + 1 }, { d with ledger })

/-- Takes up some unfinished expressions, up to the first call that is refused. -/
def recoverEach (d : Dispatcher σ) (counts : RecoveryReport) :
    List Expression → Except DispatchError RecoveryReport × Dispatcher σ
  | [] => (.ok counts, d)
  | e :: es =>
    match d.recoverOne counts e with
    | (.error err, d) => (.error err, d)
    | (.ok counts, d) => d.recoverEach counts es

/-- Takes up every expression that the ledger says has not ended. -/
def recover (d : Dispatcher σ) : Except DispatchError RecoveryReport × Dispatcher σ :=
  match Ledger.unfinished d.ledger with
  | (.error e, ledger) => (.error (.ledger e), { d with ledger })
  | (.ok expressions, ledger) =>
    match recoverEach { d with ledger } {} expressions with
    | (.error e, d) => (.error e, d)
    | (.ok counts, d) =>
      (.ok counts, { d with metrics := d.metrics.recordRecovery counts.replayed })

end Dispatcher

end Reckoner
