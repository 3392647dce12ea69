/-
Reckoner.Service.Loopback — a worker that talks to the service without a network.

The worker's requests are answered by the service itself, so a remote source of
tasks can be compared with the dispatcher behind the service.

  1. The requests of a worker
  2. The service as an orchestrator
  3. One task of work
-/
import Reckoner.Service.Basic
import Reckoner.Worker.Evaluate
import Reckoner.Worker.Remote

namespace Reckoner

namespace Service

/-! ## 1. The requests of a worker -/

/-- Where the service hands out tasks. -/
def taskPath : String := "/internal/task"

/-- The request for a task. -/
def claimRequest : Request where
  method := "GET"
  target := taskPath

/-- The request that brings a report. -/
def reportRequest (body : String) : Request where
  method := "POST"
  target := taskPath
  fields := [("content-type", "application/json")]
  body

/-! ## 2. The service as an orchestrator -/

/-- A response as the worker sees it. -/
def Response.toAnswer (r : Response) : Answer := ⟨r.status, r.body.render⟩

/-- The service answers a worker directly. -/
def exchange (m : Moment) : Exchange Service where
  get s :=
    let (response, s) := s.answer m claimRequest
    (some response.toAnswer, s)
  post body s :=
    let (response, s) := s.answer m (reportRequest body)
    (some response.toAnswer, s)

/-! ## 3. One task of work -/

/-- What a worker got and what it sent back. -/
structure Work where
  claim : Response
  /-- The report on the task and the answer to it, if there was a task. -/
  reported : Option (Report × Response)

/-- Claims a task, carries it out and reports on it. -/
def work (m : Moment) (s : Service) : Work × Service :=
  let (claim, s) := s.answer m claimRequest
  if claim.status = 200 then
    match readTask claim.body.render with
    | .ok task =>
      let report := task.execute
      let (response, s) := s.answer m (reportRequest report.toJson.render)
      (⟨claim, some (report, response)⟩, s)
    | .error _ => (⟨claim, none⟩, s)
  else (⟨claim, none⟩, s)

end Service

end Reckoner
