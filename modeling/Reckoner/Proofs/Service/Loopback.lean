/-
Reckoner.Proofs.Service.Loopback — a worker gets the same done through the service.

A worker may talk to the dispatcher itself, or to the service in front of it. The task
at the head of a board that a service gets to has literals that no reader takes for
references and no result yet, so it is read out of the answer as the dispatcher hands
it out. The report on it has a finite result and no long error, so it fits into a request
and is read out of it as it was made. So one task of work leaves the dispatcher in the
same state either way, and succeeds either way (`remote_worker_agrees`).

  1. The calls of a worker succeed
  2. The endpoint for tasks
  3. The task that is sent
  4. The report that is sent
  5. One task of work
-/
import Reckoner.Proofs.Json.Length
import Reckoner.Proofs.Service.Reaches
import Reckoner.Proofs.Task.Codec
import Reckoner.Proofs.Worker.Evaluable
import Reckoner.Service.Loopback
import Reckoner.Worker.Agent

namespace Reckoner

/-! ## 1. The calls of a worker succeed -/

namespace Dispatcher

variable {d : Dispatcher Database} {out : List Task} {t : Task}

theorem claim_of_peek? (h : InStep d.board d.ledger out) (hpeek : d.board.peek? = some t) :
    ∃ d', d.claim = (.ok { t with status := .computing }, d') := by
  have hlive := h.coherent.isLive_of_get? (Board.get?_of_peek? h.coherent hpeek)
  obtain ⟨row, hrow, -⟩ := h.covered _ hlive
  have hstart : (Ledger.start t.expressionId d.ledger).1 = .ok () :=
    Database.start_answer h.valid hrow
  exact ⟨_, Prod.ext (claim_of_start h.coherent hpeek hstart) rfl⟩

theorem report_answer (h : InStep d.board d.ledger out) {r : Report}
    (ht : d.board.get? r.id = some t) (hs : t.status = .computing)
    (hr : r.result.isFinite = true) : (d.report r).1 = .ok () := by
  rw [report]
  cases hcomplete : d.board.complete r with
  | error err =>
    rcases Board.refuses_of_complete hcomplete with ⟨hnone, -⟩ | ⟨u, hu, hstatus, -⟩
    · rw [ht] at hnone
      cases hnone
    · rw [ht] at hu
      cases hu
      exact absurd hs hstatus
  | ok done =>
    obtain ⟨completion, b⟩ := done
    cases completion with
    | progressed unblocked => rfl
    | finished e o =>
      obtain ⟨u, hu, -, hcompletes⟩ := Board.completes_of_complete hcomplete
      have howner := hcompletes.owner_of_finished
      have hresult : o.result = r.result := by cases hcompletes <;> rfl
      obtain ⟨row, hrow, -⟩ := h.covered _ (howner ▸ h.coherent.isLive_of_get? hu)
      have hfinish : (Ledger.finish e o d.ledger).1 = .ok () :=
        Database.finish_answer h.valid hrow (by rw [hresult, hr])
      show (Ledger.finish e o d.ledger).1.mapError DispatchError.ledger = .ok ()
      rw [hfinish]
      rfl

/-- A task that has been handed out is on the board, and the calls for it are in step. -/
theorem handedOut_of_claim (h : InStep d.board d.ledger out) {d' : Dispatcher Database}
    (hclaim : d.claim = (.ok t, d')) :
    InStep d'.board d'.ledger (t :: out) ∧ d'.board.get? t.id = some t ∧ t.status = .computing := by
  have hclaims := claims h.valid h.coherent
  rw [hclaim] at hclaims
  refine ⟨InStep.claim h hclaims, ?_⟩
  cases hclaims with
  | @handedOut t row db next found sets =>
    refine ⟨?_, rfl⟩
    rw [Board.get?, Board.tasks_handOut]
    exact IdMap.get?_insert_self _ _ _

end Dispatcher

namespace Service

/-! ## 2. The endpoint for tasks -/

theorem route_taskPath : (path? taskPath).bind Route.ofPath? = some .task := by decide

/-- What the endpoint for tasks answers to the two methods that a worker uses. -/
theorem answer_task (s : Service) (m : Moment) {req : Request} (htarget : req.target = taskPath)
    (hmethod : req.method = "GET" ∨ req.method = "POST") :
    s.answer m req =
      ((s.serve m req .task).1.withLength.withFields (s.serve m req .task).2.sharedFields,
        (s.serve m req .task).2) := by
  have hroute : routeOf req = some .task := by rw [routeOf, htarget, route_taskPath]
  have hhead : req.method ≠ "HEAD" := by rcases hmethod with h | h <;> rw [h] <;> decide
  have hallowed : Route.task.methods.contains req.method = true := by
    rcases hmethod with h | h <;> rw [h] <;> decide
  rw [answer_of_route s m hroute hallowed, if_neg hhead]

theorem answer_claimRequest (s : Service) (m : Moment) :
    s.answer m claimRequest =
      (s.claimTask.1.withLength.withFields s.claimTask.2.sharedFields, s.claimTask.2) :=
  answer_task s m rfl (.inl rfl)

theorem answer_reportRequest (s : Service) (m : Moment) (body : String) :
    s.answer m (reportRequest body) =
      ((s.reportTask (reportRequest body)).1.withLength.withFields
          (s.reportTask (reportRequest body)).2.sharedFields,
        (s.reportTask (reportRequest body)).2) :=
  answer_task s m rfl (.inr rfl)

/-! ## 3. The task that is sent -/

/-- A task that is handed out is read back as it is. -/
theorem reread_handedOut {b : Board} (h : b.Served) {t : Task} (hpeek : b.peek? = some t) :
    ({ t with status := .computing } : Task).reread = { t with status := .computing } := by
  have hcoherent := h.reachable.coherent
  have hmem := Board.mem_of_peek? hcoherent hpeek
  obtain ⟨hpending, hliteral⟩ :=
    (Task.isRunnable_iff t).1 (Board.isRunnable_of_peek? hcoherent hpeek)
  have hsides : ∀ side, (t.operand side).reread = t.operand side := by
    intro side
    have hside := hliteral side
    cases ho : t.operand side with
    | pending id =>
      rw [ho] at hside
      cases hside
    | literal text =>
      exact Operand.reread_literal
        (Operand.reference?_of_not_isReference (h.unambiguous hmem side text ho))
  have hresult : t.result = none := (h.openOrReported hmem (by rw [hpending]; rfl)).1
  refine Task.reread_eq_self (hsides .left) (hsides .right) fun x hx => ?_
  rw [hresult] at hx
  cases hx

variable {s : Service} {t : Task} {d : Dispatcher Database}

/-- The answer to a claim is the text of the task that the dispatcher hands out. -/
theorem answer_claim (m : Moment) (hclaim : s.dispatcher.claim = (.ok t, d)) :
    (s.answer m claimRequest).1.toAnswer = ⟨200, t.toJson.render⟩ ∧
      (s.answer m claimRequest).2 = { s with dispatcher := d } := by
  rw [answer_claimRequest, claimTask, hclaim]
  exact ⟨rfl, rfl⟩

theorem fetch_exchange (m : Moment) (hclaim : s.dispatcher.claim = (.ok t, d))
    (hread : readTask t.toJson.render = .ok t) :
    (exchange m).source.fetch s = (.ok (some t), { s with dispatcher := d }) := by
  obtain ⟨hanswer, hstate⟩ := answer_claim m hclaim
  have hget : (exchange m).get s = (some ⟨200, t.toJson.render⟩, { s with dispatcher := d }) :=
    Prod.ext (congrArg some hanswer) hstate
  rw [Exchange.source]
  simp only [hget, hread]
  rfl

/-! ## 4. The report that is sent -/

theorem isFinite_of_execute (t : Task) : t.execute.result.isFinite = true := by
  rw [Task.execute]
  split
  · next h => exact isFinite_of_evaluateOperands h
  · rfl

theorem announcesJson_reportRequest (body : String) :
    (reportRequest body).announcesJson = true := by
  have hfirst : (reportRequest body).fields.first? "content-type" = some "application/json" := by
    simp [reportRequest, Fields.first?]
  rw [Request.announcesJson, Fields.plain?, hfirst]
  decide

/-- A report without a long error fits into a request. -/
theorem fits_reportRequest {r : Report} (hid : Text.fitsSigned64 r.id = true)
    (herror : ∀ error, r.error = some error → error.length ≤ 16) :
    (reportRequest r.toJson.render).Fits :=
  Nat.le_trans (Report.length_render_le hid herror) (by decide)

/-- The service reads a report as it was made. -/
theorem decodeBody_reportRequest {r : Report} (hid : Text.fitsSigned64 r.id = true)
    (hresult : r.result.isFinite = true)
    (herror : ∀ error, r.error = some error → error.length ≤ 16) :
    decodeBody Report.ofJson (reportRequest r.toJson.render) = .ok r := by
  refine decodeBody_of_decodeBytes (announcesJson_reportRequest _)
    (fits_reportRequest hid herror) ?_
  show Json.decodeBytes _ (Text.utf8 r.toJson.render) = _
  rw [Json.decodeBytes_utf8, Report.decode_render hid hresult]

/-- A report through the service is one to the dispatcher, and is taken if that takes it. -/
theorem submit_exchange (m : Moment) {r : Report} {d' : Dispatcher Database}
    (hdecode : decodeBody Report.ofJson (reportRequest r.toJson.render) = .ok r)
    (hreport : s.dispatcher.report r = (.ok (), d')) :
    (exchange m).source.submit r s = (.ok (), { s with dispatcher := d' }) := by
  have hpost : (exchange m).post r.toJson.render s =
      (some (s.answer m (reportRequest r.toJson.render)).1.toAnswer,
        (s.answer m (reportRequest r.toJson.render)).2) := rfl
  rw [Exchange.source]
  simp only [hpost]
  rw [answer_reportRequest, reportTask]
  simp only [hdecode, hreport]
  rfl

/-! ## 5. One task of work -/

theorem runOnce_of_submit {σ : Type} {source : TaskSource σ} {s s' s'' : σ} {t : Task}
    (hfetch : source.fetch s = (.ok (some t), s'))
    (hsubmit : source.submit t.execute s' = (.ok (), s'')) :
    source.runOnce s = (.ok true, s'') := by
  rw [TaskSource.runOnce, hfetch]
  simp only [hsubmit]
  rfl

theorem runOnce_source {d d' d'' : Dispatcher Database} {t : Task}
    (hclaim : d.claim = (.ok t, d')) (hreport : d'.report t.execute = (.ok (), d'')) :
    (Dispatcher.source Database).runOnce d = (.ok true, d'') := by
  have hfetch : (Dispatcher.source Database).fetch d = (.ok (some t), d') := by
    simp only [Dispatcher.source, hclaim]
  have hsubmit : (Dispatcher.source Database).submit t.execute d' = (.ok (), d'') := by
    simp only [Dispatcher.source, hreport]
    rfl
  exact runOnce_of_submit hfetch hsubmit

/-- What a service hands out and takes is what its dispatcher does. Whatever was asked of
the service before, whichever values were reported and whichever calls were refused: as
long as the numbers of the next task fit their words, the task is read as it was handed
out, the report on it is read as it was made, and the worker that talks to the service
leaves it with the dispatcher that a worker in the same program leaves. -/
theorem remote_worker_agrees (tokens : Settings.Tokens) (corsOrigin : String) (timings : Timings)
    {db : Database} (hvalid : LawfulLedger.Valid db) {s : Service}
    (hs : (start tokens corsOrigin timings db).Reaches s) {t : Task}
    (hnext : s.dispatcher.board.peek? = some t) (hfits : t.FitsWords) (m : Moment) :
    let task : Task := { t with status := .computing }
    let report := task.execute
    let inside := (Dispatcher.source Database).runOnce s.dispatcher
    s.dispatcher.claim.1 = .ok task ∧
      readTask (s.answer m claimRequest).1.body.render = .ok task ∧
      decodeBody Report.ofJson (reportRequest report.toJson.render) = .ok report ∧
      inside.1 = .ok true ∧
      (exchange m).source.runOnce s = (.ok true, { s with dispatcher := inside.2 }) := by
  intro task report inside
  obtain ⟨out, hstep⟩ := isInStep_of_reaches (isInStep_start tokens corsOrigin timings hvalid) hs
  obtain ⟨d, hclaim⟩ : ∃ d, s.dispatcher.claim = (.ok task, d) :=
    Dispatcher.claim_of_peek? hstep hnext
  -- The task is read back as it is.
  have hread : readTask task.toJson.render = .ok task := by
    have hsame : task.reread = task := reread_handedOut hstep.served hnext
    rw [readTask_render (t := task) ⟨hfits.id, hfits.expressionId, hfits.durationMs⟩, hsame]
  -- The report on it is taken, and is read back as it is.
  obtain ⟨hstep', hget, hstatus⟩ := Dispatcher.handedOut_of_claim hstep hclaim
  have hid : report.id = task.id := task.id_execute
  have hfinite : report.result.isFinite = true := isFinite_of_execute task
  have hreadable : task.Readable := (hstep.served.readable_of_peek? hnext).withStatus .computing
  have hdecode : decodeBody Report.ofJson (reportRequest report.toJson.render) = .ok report :=
    decodeBody_reportRequest (by rw [hid]; exact hfits.id) hfinite hreadable.length_error_le
  have hanswer := Dispatcher.report_answer hstep' (r := report) (by rw [hid]; exact hget) hstatus
    hfinite
  obtain ⟨d', hreport⟩ : ∃ d', d.report report = (.ok (), d') := ⟨_, Prod.ext hanswer rfl⟩
  have hinside : inside = (.ok true, d') := runOnce_source hclaim hreport
  have hremote : (exchange m).source.runOnce s = (.ok true, { s with dispatcher := d' }) :=
    runOnce_of_submit (fetch_exchange m hclaim hread) (submit_exchange m hdecode hreport)
  have hbody : (s.answer m claimRequest).1.body.render = task.toJson.render :=
    congrArg Answer.body (answer_claim m hclaim).1
  refine ⟨congrArg Prod.fst hclaim, ?_, hdecode, congrArg Prod.fst hinside, ?_⟩
  · rw [hbody, hread]
  · rw [hinside, hremote]

/-- The quotient was reported to be no number, so that the sum is none either. -/
theorem remote_worker_agrees_after_nan :
    let db : Database := { users := ({} : Table User).insert 1 ⟨1, "ann", "", ""⟩ }
    let first := start ⟨"secret", 60⟩ "*" {} db
    let m : Moment := ⟨0, []⟩
    let call := callRefusing (fun _ => []) fun _ => ""
    let submitted := { first with dispatcher := call first.dispatcher (.submit "1/3+2" 1) }
    let claimed := (submitted.answer m claimRequest).2
    let s := { claimed with dispatcher := call claimed.dispatcher (.report ⟨1, .nan, none⟩) }
    let t : Task := ⟨2, 1, .literal "NaN", .literal "2", .add, 1000, .pending, none, none⟩
    s.dispatcher.board.peek? = some t ∧ t.FitsWords ∧
      readTask (s.answer m claimRequest).1.body.render = .ok { t with status := .computing } ∧
      Ledger.get? 1 ((exchange m).source.runOnce s).2.database =
        some ⟨1, "1/3+2", .error, .zero, some "result overflow", 1⟩ := by
  intro db first m call submitted claimed s t
  have hempty : LawfulLedger.Valid db := fun _ _ h => nomatch h
  have hreaches : first.Reaches s := .call _ _ _ (.answer m claimRequest (.call _ _ _ .refl))
  have hnext : s.dispatcher.board.peek? = some t := by decide +kernel
  have hfits : t.FitsWords := ⟨by decide, by decide, by decide⟩
  obtain ⟨-, hread, -, -, hrun⟩ :=
    remote_worker_agrees ⟨"secret", 60⟩ "*" {} hempty hreaches hnext hfits m
  refine ⟨hnext, hfits, hread, ?_⟩
  rw [hrun]
  decide +kernel

end Service

end Reckoner
