/-
Reckoner.Worker.Remote — tasks from an orchestrator over HTTP.

The orchestrator answers `GET` and `POST` at one endpoint. How a request gets
there is left open: an exchange takes one and gives the answer, or none if no
answer came or its body could not be read.

  1. The endpoint
  2. Exchanges
  3. Reading a task
  4. The source
-/
import Reckoner.Json.Writer
import Reckoner.Task.Codec
import Reckoner.Worker.Source

namespace Reckoner

/-! ## 1. The endpoint -/

/-- The address at which an orchestrator hands out tasks. Slashes at the end of
its own address do not matter. -/
def taskEndpoint (address : String) : String :=
  String.ofList (address.toList.reverse.dropWhile (· == '/')).reverse ++ "/internal/task"

/-! ## 2. Exchanges -/

/-- An answer as a client sees it. -/
structure Answer where
  status : Nat
  body : String
deriving DecidableEq

/-- The answer is a success. -/
def Answer.isSuccess (a : Answer) : Bool := 200 ≤ a.status && a.status < 300

/-- A way to ask an orchestrator; what lies between is a `σ`. -/
structure Exchange (σ : Type) where
  get : σ → Option Answer × σ
  post : String → σ → Option Answer × σ

/-- Nobody answers. -/
def Exchange.unreachable (σ : Type) : Exchange σ where
  get s := (none, s)
  post _ s := (none, s)

/-! ## 3. Reading a task -/

/-- The id of a task that may be unreadable otherwise. -/
def Json.taskId? (j : Json) : Option Int :=
  match j.member? "id" with
  | some (.integer n) => if Text.fitsSigned64 n then some n else none
  | _ => none

/-- What is said of a task that cannot be read. -/
def malformedReason : String := "not a task"

/-- The task in the body of an answer. A body that is no JSON is unreadable; a
name that is used again counts with its last value. -/
def readTask (body : String) : Except SourceError Task :=
  match Json.ofText? body with
  | none => .error .http
  | some j =>
    match Task.ofJson j.withLastMembers with
    | .ok task => .ok task
    | .error _ => .error (.malformed j.taskId? malformedReason)

/-! ## 4. The source -/

/-- An orchestrator as a source. An answer that there is no task is no error. -/
def Exchange.source {σ : Type} (exchange : Exchange σ) : TaskSource σ where
  fetch s :=
    match exchange.get s with
    | (none, s) => (.error .http, s)
    | (some answer, s) =>
      if answer.status = 404 then (.ok none, s)
      else if answer.isSuccess then ((readTask answer.body).map some, s)
      else (.error (.status answer.status answer.body), s)
  submit r s :=
    match exchange.post r.toJson.render s with
    | (none, s) => (.error .http, s)
    | (some answer, s) =>
      if answer.isSuccess then (.ok (), s)
      else (.error (.status answer.status answer.body), s)

end Reckoner
