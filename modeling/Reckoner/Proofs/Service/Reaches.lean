/-
Reckoner.Proofs.Service.Reaches — the states that a service gets into.

A service answers any requests in any order. Besides, its dispatcher may be called
directly, with any reports, while its database refuses some of the calls, and the
service may be restarted at any time. All of it comes down to calls of the dispatcher
and new users, so the board and the database stay in step (`isInStep_of_reaches`).

  1. States
  2. What an answer does
  3. Every state is in step
-/
import Reckoner.Proofs.Dispatcher.Run
import Reckoner.Service.Basic

namespace Reckoner

/-! ## 1. States -/

/-- The dispatcher over another ledger. -/
def Dispatcher.withLedger {σ τ : Type} (d : Dispatcher σ) (ledger : τ) : Dispatcher τ :=
  ⟨d.timings, d.board, d.metrics, ledger⟩

namespace Service

/-- The dispatcher after a request, whatever the answer, while its database refuses
the calls that a plan says. -/
def callRefusing (refusals : LedgerCall → List Bool) (reason : LedgerCall → String)
    (d : Dispatcher Database) (q : Reckoner.Request) : Dispatcher Database :=
  let refusing : FaultyLedger Database := ⟨d.ledger, refusals, reason⟩
  let after := (Session.step ⟨d.withLedger refusing, []⟩ q).dispatcher
  after.withLedger after.ledger.ledger

/-- The states that a service gets into. -/
inductive Reaches (first : Service) : Service → Prop
  | refl : Reaches first first
  | answer {s : Service} (m : Moment) (req : Request) :
      Reaches first s → Reaches first (s.answer m req).2
  | call {s : Service} (refusals : LedgerCall → List Bool) (reason : LedgerCall → String)
      (q : Reckoner.Request) :
      Reaches first s →
        Reaches first { s with dispatcher := callRefusing refusals reason s.dispatcher q }
  | restart {s : Service} : Reaches first s → Reaches first s.restart

/-! ## 2. What an answer does -/

/-- What comes of a request on a route: nothing happens, or what the one handler does that
the route has for it, and the status that answers it. -/
inductive Serves (s : Service) : Route → Response × Service → Prop
  | untouched (route : Route) (response : Response) : Serves s route (response, s)
  | registered {login password : String} {salt : List UInt8} {id : Int} {db : Database}
      {response : Response} (call : s.database.register login password salt = (.ok id, db))
      (status : response.status = 200) : Serves s .register (response, s.withDatabase db)
  | submitted {text : String} {owner : Int} {answer : Except DispatchError Int}
      {d : Dispatcher Database} {response : Response}
      (call : s.dispatcher.submit text owner = (answer, d))
      (status : response.status = 202 ∨ response.status = 500) :
      Serves s .calculate (response, { s with dispatcher := d })
  | claimed {answer : Except DispatchError Task} {d : Dispatcher Database} {response : Response}
      (call : s.dispatcher.claim = (answer, d))
      (status : answer = .error .noTaskAvailable ∨
        response.status = 200 ∨ response.status = 500) :
      Serves s .task (response, { s with dispatcher := d })
  | reported {r : Report} {answer : Except DispatchError Unit} {d : Dispatcher Database}
      {response : Response} (call : s.dispatcher.report r = (answer, d))
      (status : (∃ err, answer = .error (.board err)) ∨
        response.status = 200 ∨ response.status = 500) :
      Serves s .task (response, { s with dispatcher := d })

theorem serves_register (s : Service) (m : Moment) (req : Request) :
    s.Serves .register (s.register m req) := by
  rw [register]
  split
  · exact .untouched _ _
  · split
    · exact .untouched _ _
    · next hcall => exact .registered hcall rfl

theorem serves_calculate (s : Service) (m : Moment) (req : Request) :
    s.Serves .calculate (s.calculate m req) := by
  rw [calculate]
  split
  · exact .untouched _ _
  · split
    · exact .untouched _ _
    · split
      · next hcall => exact .submitted hcall (.inl rfl)
      · next hcall => exact .submitted hcall (.inr rfl)

theorem serves_claimTask (s : Service) : s.Serves .task s.claimTask := by
  rw [claimTask]
  split
  · next hcall => exact .claimed hcall (.inr (.inl rfl))
  · next hcall => exact .claimed hcall (.inl rfl)
  · next hcall => exact .claimed hcall (.inr (.inr rfl))

theorem serves_reportTask (s : Service) (req : Request) : s.Serves .task (s.reportTask req) := by
  rw [reportTask]
  split
  · exact .untouched _ _
  · split
    · next hcall => exact .reported hcall (.inr (.inl rfl))
    · next e _ hcall =>
      refine .reported hcall ?_
      cases e with
      | board err => exact .inl ⟨err, rfl⟩
      | formula err => exact .inr (.inr rfl)
      | noTaskAvailable => exact .inr (.inr rfl)
      | ledger err => exact .inr (.inr rfl)

theorem serves (s : Service) (m : Moment) (req : Request) (route : Route) :
    s.Serves route (s.serve m req route) := by
  cases route with
  | health => exact .untouched _ _
  | register => exact serves_register s m req
  | login => exact .untouched _ _
  | calculate => exact serves_calculate s m req
  | expressions => exact .untouched _ _
  | expression rawId => exact .untouched _ _
  | task =>
    rw [serve]
    split
    · exact serves_reportTask s req
    · exact serves_claimTask s

/-- What becomes of a service that answers a request. -/
inductive Leaves (s : Service) : Service → Prop
  | same : Leaves s s
  | user (login password : String) (salt : List UInt8) :
      Leaves s (s.withDatabase (s.database.register login password salt).2)
  | submitted (text : String) (owner : Int) :
      Leaves s { s with dispatcher := (s.dispatcher.submit text owner).2 }
  | claimed : Leaves s { s with dispatcher := s.dispatcher.claim.2 }
  | reported (r : Report) : Leaves s { s with dispatcher := (s.dispatcher.report r).2 }

theorem Serves.leaves {s : Service} {route : Route} {after : Response × Service}
    (h : s.Serves route after) : s.Leaves after.2 := by
  cases h with
  | untouched => exact .same
  | @registered login password salt _ _ _ call _ =>
    have hleaves := Leaves.user (s := s) login password salt
    rwa [call] at hleaves
  | @submitted text owner _ _ _ call _ =>
    have hleaves := Leaves.submitted (s := s) text owner
    rwa [call] at hleaves
  | claimed call _ =>
    have hleaves := Leaves.claimed (s := s)
    rwa [call] at hleaves
  | @reported r _ _ _ call _ =>
    have hleaves := Leaves.reported (s := s) r
    rwa [call] at hleaves

/-- The route of a request. -/
def routeOf (req : Request) : Option Route := (path? req.target).bind Route.ofPath?

/-- Responses cannot be compared, so what is read of a formula is computed as an option. -/
theorem formula_of_toOption {req : Request} {text : String}
    (h : (formula req).toOption = some text) : formula req = .ok text := by
  cases hread : formula req with
  | error response => rw [hread] at h; cases h
  | ok text' => rw [hread] at h; cases h; rfl

theorem ne_options_of_methods {route : Route} {method : String}
    (h : route.methods.contains method = true) : method ≠ "OPTIONS" := by
  rintro rfl
  cases route <;> simp [Route.methods] at h

/-- What the answer to a request is whose route has its method. -/
theorem answer_of_route (s : Service) (m : Moment) {req : Request} {route : Route}
    (hroute : routeOf req = some route) (hmethod : route.methods.contains req.method = true) :
    s.answer m req =
      ((if req.method = "HEAD" then (s.serve m req route).1.withLength.withoutBody
          else (s.serve m req route).1.withLength).withFields (s.serve m req route).2.sharedFields,
        (s.serve m req route).2) := by
  obtain ⟨path, hpath, hof⟩ := Option.bind_eq_some_iff.1 hroute
  rw [answer, hpath]
  simp only [hof, hmethod, ne_options_of_methods hmethod, if_true, if_false]

/-- The status of an answer is that of the route, and so is the service afterwards. -/
theorem status_answer_of_route (s : Service) (m : Moment) {req : Request} {route : Route}
    (hroute : routeOf req = some route) (hmethod : route.methods.contains req.method = true) :
    (s.answer m req).1.status = (s.serve m req route).1.status ∧
      (s.answer m req).2 = (s.serve m req route).2 := by
  rw [answer_of_route s m hroute hmethod]
  refine ⟨?_, rfl⟩
  split <;> rfl

/-- Only an answer to `HEAD` lacks its body. -/
theorem body_answer_of_route (s : Service) (m : Moment) {req : Request} {route : Route}
    (hroute : routeOf req = some route) (hmethod : route.methods.contains req.method = true)
    (hhead : req.method ≠ "HEAD") :
    (s.answer m req).1.body = (s.serve m req route).1.body := by
  rw [answer_of_route s m hroute hmethod, if_neg hhead]
  rfl

/-- A request that no route takes leaves the service as it was. -/
theorem answer_of_no_route (s : Service) (m : Moment) {req : Request}
    (h : ¬ ∃ route, routeOf req = some route ∧ route.methods.contains req.method = true) :
    (s.answer m req).2 = s := by
  rw [answer]
  split
  · rfl
  · next path hpath =>
    split
    · rfl
    · next route hof =>
      have hroute : routeOf req = some route := by rw [routeOf, hpath]; exact hof
      rw [if_neg fun hmethod => h ⟨route, hroute, hmethod⟩]
      split <;> rfl

theorem answer_leaves (s : Service) (m : Moment) (req : Request) : s.Leaves (s.answer m req).2 := by
  by_cases hserved : ∃ route, routeOf req = some route ∧ route.methods.contains req.method = true
  · obtain ⟨route, hroute, hmethod⟩ := hserved
    rw [(status_answer_of_route s m hroute hmethod).2]
    exact (serves s m req route).leaves
  · rw [answer_of_no_route s m hserved]
    exact .same

/-! ## 3. Every state is in step -/

/-- The board and the database are in step, whatever has been handed out. -/
def IsInStep (s : Service) : Prop := ∃ out, InStep s.dispatcher.board s.dispatcher.ledger out

/-- New users concern no expression. -/
theorem ignores_register (db : Database) (h : LawfulLedger.Valid db) (login password : String)
    (salt : List UInt8) : Ledger.Ignores db (db.register login password salt).2 := by
  rw [Database.register]
  split
  · exact ⟨h, fun _ => rfl⟩
  · exact ⟨h, fun _ => rfl⟩

theorem Leaves.isInStep {s s' : Service} (hleaves : s.Leaves s') (h : s.IsInStep) :
    s'.IsInStep := by
  obtain ⟨out, hout⟩ := h
  have hsession : Session.IsInStep ⟨s.dispatcher, out⟩ := hout
  have hstep : ∀ q, (Session.step ⟨s.dispatcher, out⟩ q).IsInStep :=
    fun q => Session.isInStep_next hsession (.request q)
  cases hleaves with
  | same => exact ⟨out, hout⟩
  | user login password salt =>
    exact ⟨out, InStep.ignores hout (ignores_register _ hout.valid login password salt)⟩
  | submitted text owner => exact ⟨_, hstep (.submit text owner)⟩
  | claimed =>
    have hclaim := hstep .claim
    rw [Session.IsInStep, Session.dispatcher_claim] at hclaim
    exact ⟨_, hclaim⟩
  | reported r => exact ⟨_, hstep (.report r)⟩

/-- What was handed out before does not matter to the dispatcher. -/
theorem dispatcher_step {σ : Type} [Ledger σ] (d : Dispatcher σ) (out out' : List Task)
    (q : Reckoner.Request) :
    (Session.step ⟨d, out⟩ q).dispatcher = (Session.step ⟨d, out'⟩ q).dispatcher := by
  cases q with
  | claim => rw [Session.dispatcher_claim, Session.dispatcher_claim]
  | submit text owner => rfl
  | report r => rfl
  | recover => rfl

/-- A ledger that may refuse calls has the rows of the ledger behind it. -/
theorem InStep.refusing {σ : Type} [Ledger σ] [LawfulLedger σ] {b : Board} {f : FaultyLedger σ}
    {out : List Task} : InStep b f out ↔ InStep b f.ledger out :=
  ⟨fun h => ⟨h.valid, h.served, h.computing, h.out, h.covered⟩,
    fun h => ⟨h.valid, h.served, h.computing, h.out, h.covered⟩⟩

theorem isInStep_of_reaches {first s : Service} (hfirst : first.IsInStep)
    (h : first.Reaches s) : s.IsInStep := by
  induction h with
  | refl => exact hfirst
  | answer m req _ ih => exact (answer_leaves _ m req).isInStep ih
  | @call s refusals reason q _ ih =>
    obtain ⟨out, hout⟩ := ih
    have hsession : Session.IsInStep
        ⟨s.dispatcher.withLedger (⟨s.dispatcher.ledger, refusals, reason⟩ : FaultyLedger Database),
          out⟩ := InStep.refusing.2 hout
    have hstep := Session.isInStep_next hsession (.request q)
    rw [Session.IsInStep, Session.next, dispatcher_step _ out []] at hstep
    exact ⟨_, InStep.refusing.1 hstep⟩
  | restart _ ih =>
    obtain ⟨out, hout⟩ := ih
    exact ⟨[], .start hout.valid⟩

theorem isInStep_start (tokens : Settings.Tokens) (corsOrigin : String) (timings : Timings)
    {db : Database} (hvalid : LawfulLedger.Valid db) :
    (start tokens corsOrigin timings db).IsInStep :=
  ⟨[], .start hvalid⟩

end Service

end Reckoner
