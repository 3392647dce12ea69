/-
Reckoner.Proofs.Service.Rejection — a request that is rejected changes nothing.

Whatever is wrong with a request, it is found before anything is done: the route
and the method, the token, the body and what is in it. A dispatcher that has no
task to hand out, or no task in the hands of a worker for a report, stays as it
is, and so does one that is given a text that is no formula. So the users, the
rows, the board with the id of its next task and the counts are what they were
(`rejections_change_nothing`).

  1. Rejections
  2. Handlers
  3. Every request
-/
import Reckoner.Proofs.Service.Bearer
import Reckoner.Proofs.Service.Reaches
import Reckoner.Service.Loopback

namespace Reckoner.Service

/-! ## 1. Rejections -/

/-- The fault lies with the request. -/
def Response.IsRejection (r : Response) : Prop := 400 ≤ r.status ∧ r.status < 500

instance (r : Response) : Decidable r.IsRejection :=
  inferInstanceAs (Decidable (400 ≤ r.status ∧ r.status < 500))

/-- A handler that answers with a rejection leaves the service as it was. -/
def Spares (s : Service) (after : Response × Service) : Prop :=
  after.1.IsRejection → after.2 = s

theorem spares_self (s : Service) (r : Response) : s.Spares (r, s) := fun _ => rfl

/-- Other statuses are no rejections. -/
theorem spares_of_status {s s' : Service} {r : Response}
    (h : r.status = 200 ∨ r.status = 202 ∨ r.status = 500) : s.Spares (r, s') := by
  intro hrejected
  obtain ⟨hlow, hhigh⟩ : 400 ≤ r.status ∧ r.status < 500 := hrejected
  omega

/-! ## 2. Handlers -/

/-- A text that is no formula reaches neither the board nor the database. -/
theorem calculate_of_no_formula {s : Service} {m : Moment} {req : Request} {user : Int}
    {text : String} {err : FormulaError} (hcaller : s.caller m req = .ok user)
    (hformula : formula req = .ok text) (herr : Plan.ofFormula text = .error err) :
    s.calculate m req = (.error 500 err.message, s) := by
  have hsubmit : s.dispatcher.submit text user = (.error (.formula err), s.dispatcher) := by
    rw [Dispatcher.submit, herr]
  simp only [calculate, hcaller, hformula, hsubmit]
  rfl

/-- Only an empty board has no task for a worker, and it is not asked for one; only the
board rejects a report, and then takes nothing from it. -/
theorem Serves.spares {s : Service} (h : s.IsInStep) {route : Route} {after : Response × Service}
    (hserves : s.Serves route after) : s.Spares after := by
  obtain ⟨out, hstep⟩ := h
  cases hserves with
  | untouched route response => exact s.spares_self response
  | registered call status => exact spares_of_status (.inl status)
  | submitted call status => exact spares_of_status (.inr status)
  | claimed call status =>
    have hclaims := Dispatcher.claims hstep.valid hstep.coherent
    rw [call] at hclaims
    rcases status with rfl | hstatus
    · cases hclaims with
      | idle nothing => exact s.spares_self _
    · exact spares_of_status (hstatus.imp_right .inr)
  | @reported r _ _ _ call status =>
    have hreports := Dispatcher.reports hstep.valid r
    rw [call] at hreports
    rcases status with ⟨err, rfl⟩ | hstatus
    · obtain ⟨-, rfl⟩ := hreports.rejects
      exact s.spares_self _
    · exact spares_of_status (hstatus.imp_right .inr)

/-! ## 3. Every request -/

theorem answer_spares {s : Service} (h : s.IsInStep) (m : Moment) (req : Request) :
    s.Spares (s.answer m req) := by
  by_cases hserved : ∃ route, routeOf req = some route ∧ route.methods.contains req.method = true
  · obtain ⟨route, hroute, hmethod⟩ := hserved
    obtain ⟨hstatus, hafter⟩ := status_answer_of_route s m hroute hmethod
    intro hrejected
    rw [Response.IsRejection, hstatus] at hrejected
    rw [hafter]
    exact (serves s m req route).spares h hrejected
  · exact fun _ => s.answer_of_no_route m hserved

/-- In every state that a service gets into: a request that is answered with a status
from 400 to 499 leaves the whole service as it was, and so does the submission of a
text that is no formula, which is answered with 500. -/
theorem rejections_change_nothing (tokens : Settings.Tokens) (corsOrigin : String)
    (timings : Timings) {db : Database} (hvalid : LawfulLedger.Valid db) {s : Service}
    (hs : (start tokens corsOrigin timings db).Reaches s) (m : Moment) (req : Request) :
    ((s.answer m req).1.IsRejection → (s.answer m req).2 = s) ∧
    ∀ user text err, routeOf req = some .calculate → req.method = "POST" →
      s.caller m req = .ok user → formula req = .ok text → Plan.ofFormula text = .error err →
      (s.answer m req).1.status = 500 ∧ (s.answer m req).2 = s := by
  have h := isInStep_of_reaches (isInStep_start tokens corsOrigin timings hvalid) hs
  refine ⟨answer_spares h m req, ?_⟩
  intro user text err hroute hpost hcaller hformula herr
  have hmethod : Route.calculate.methods.contains req.method = true := by rw [hpost]; decide
  obtain ⟨hstatus, hafter⟩ := status_answer_of_route s m hroute hmethod
  rw [hstatus, hafter, serve, calculate_of_no_formula hcaller hformula herr]
  exact ⟨rfl, rfl⟩

/-- A report on a task that nobody has claimed, and a formula that lacks an operand. -/
theorem rejections_change_nothing_unclaimed :
    let db : Database := { users := ({} : Table User).insert 1 ⟨1, "ann", "", ""⟩ }
    let m : Moment := ⟨0, []⟩
    let first := start ⟨"k", 60⟩ "*" {} db
    let call := callRefusing (fun _ => []) fun _ => ""
    let s := { first with dispatcher := call first.dispatcher (.submit "1+2" 1) }
    let report := reportRequest (Report.toJson ⟨1, .zero, none⟩).render
    let fields := [("authorization", "Bearer " ++ Token.issue "k" 60 0 1),
      ("content-type", "application/json")]
    let submission : Request := ⟨"POST", "/api/v1/calculate", fields, "[\"1+\"]"⟩
    s.dispatcher.board.nextId = 2 ∧
    (s.answer m report).1.status = 409 ∧ (s.answer m report).2 = s ∧
    (s.answer m submission).1.status = 500 ∧ (s.answer m submission).2 = s := by
  intro db m first call s report fields submission
  have hempty : LawfulLedger.Valid db := fun _ _ h => nomatch h
  have hreaches : first.Reaches s := .call _ _ _ .refl
  obtain ⟨hreport, -⟩ := rejections_change_nothing ⟨"k", 60⟩ "*" {} hempty hreaches m report
  obtain ⟨-, hsubmission⟩ :=
    rejections_change_nothing ⟨"k", 60⟩ "*" {} hempty hreaches m submission
  have hconflict : (s.answer m report).1.status = 409 := by decide +kernel
  have hrejected : (s.answer m report).1.IsRejection := by
    rw [Response.IsRejection, hconflict]
    decide
  have htoken : Token.verify "k" 0 (Token.issue "k" 60 0 1) = .ok 1 :=
    Token.verify_sign (c := .issue 1 0 60) (by decide +kernel) (by decide +kernel) (by decide)
  have hcaller : s.caller m submission = .ok 1 :=
    caller_sign (Fields.first?_cons_self _ _ _) htoken
  have hformula : formula submission = .ok "1+" := formula_of_toOption (by decide +kernel)
  obtain ⟨hstatus, hsame⟩ := hsubmission 1 "1+" (.plan (.insufficientOperands .add))
    (by decide) rfl hcaller hformula (by decide +kernel)
  exact ⟨by decide +kernel, hconflict, hreport hrejected, hstatus, hsame⟩

end Reckoner.Service
