/-
Reckoner.Metrics — counts of what a dispatcher has done.
-/
import Reckoner.Expression
import Reckoner.IdMap

namespace Reckoner

/-- What has happened so far, and the tasks that are out with workers. -/
structure Metrics where
  submitted : Nat := 0
  recovered : Nat := 0
  done : Nat := 0
  failed : Nat := 0
  dispatched : Nat := 0
  tasksCompleted : Nat := 0
  tasksFailed : Nat := 0
  inFlight : IdMap Unit := .empty
deriving DecidableEq

namespace Metrics

/-- A new expression has been taken. -/
def recordSubmission (m : Metrics) : Metrics := { m with submitted := m.submitted + 1 }

/-- Some expressions have been taken up again. -/
def recordRecovery (m : Metrics) (count : Nat) : Metrics :=
  { m with recovered := m.recovered + count }

/-- A task has been handed out. -/
def recordDispatch (m : Metrics) (id : Int) : Metrics :=
  { m with dispatched := m.dispatched + 1, inFlight := m.inFlight.insert id () }

/-- A report on a task has been taken. -/
def recordReport (m : Metrics) (id : Int) (failed : Bool) : Metrics :=
  { m with
    tasksFailed := if failed then m.tasksFailed + 1 else m.tasksFailed
    tasksCompleted := if failed then m.tasksCompleted else m.tasksCompleted + 1
    inFlight := m.inFlight.erase id }

/-- An expression has ended. -/
def recordEnd (m : Metrics) : Outcome → Metrics
  | .done _ => { m with done := m.done + 1 }
  | .failed _ _ => { m with failed := m.failed + 1 }

/-- Some tasks are no longer waited for. -/
def forget (m : Metrics) (ids : List Int) : Metrics :=
  { m with inFlight := m.inFlight.eraseAll ids }

/-- Some task has been handed out. -/
def hasDispatched (m : Metrics) : Bool := 0 < m.dispatched

/-- Some report has been taken. -/
def hasReport (m : Metrics) : Bool := 0 < m.tasksCompleted + m.tasksFailed

end Metrics

end Reckoner
