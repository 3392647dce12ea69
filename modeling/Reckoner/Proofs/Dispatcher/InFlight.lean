/-
Reckoner.Proofs.Dispatcher.InFlight — the counts of tasks agree with the board.

A dispatcher keeps the tasks that are out with workers twice: as tasks on its board,
and as ids among its counts. The two change in different calls, yet they agree in
every run: the ids are those of the tasks that are being computed. Every task that
was handed out has been reported on, is still out, or has left the board with an
expression that failed (`in_flight_exact`).

  1. Counts of tasks
  2. Operations
  3. Every run
-/
import Reckoner.Proofs.Board.Load
import Reckoner.Proofs.Dispatcher.History

namespace Reckoner

variable {σ : Type}

/-! ## 1. Counts of tasks -/

/-- The reports that were taken. -/
def Metrics.reported (m : Metrics) : Nat := m.tasksCompleted + m.tasksFailed

namespace Metrics

variable (m : Metrics)

@[simp] theorem reported_recordReport (id : Int) (failed : Bool) :
    (m.recordReport id failed).reported = m.reported + 1 := by
  cases failed
  · simp only [recordReport, reported, Bool.false_eq_true, if_false]
    omega
  · simp only [recordReport, reported, if_true]
    omega

@[simp] theorem reported_recordEnd (o : Outcome) : (m.recordEnd o).reported = m.reported := by
  cases o <;> rfl

@[simp] theorem dispatched_recordEnd (o : Outcome) :
    (m.recordEnd o).dispatched = m.dispatched := by
  cases o <;> rfl

@[simp] theorem inFlight_recordEnd (o : Outcome) : (m.recordEnd o).inFlight = m.inFlight := by
  cases o <;> rfl

end Metrics

namespace Dispatcher

/-- The ids among the counts are those of the tasks that are out, and each task that
was handed out was reported on, is out, or was abandoned. -/
structure Tracks (d : Dispatcher σ) (abandoned : Nat) : Prop where
  tracked : ∀ id, d.metrics.inFlight.contains id = true ↔ id ∈ d.board.outIds
  counted : d.metrics.dispatched = d.metrics.reported + d.board.load.computing + abandoned

/-- How many tasks that are out leave the board because a report makes their
expression fail. -/
def abandons (d : Dispatcher σ) (r : Report) : Nat :=
  match d.board.complete r with
  | .ok (.finished e (.failed _ _), b) => b.outOf e
  | _ => 0

namespace Tracks

variable {d d' : Dispatcher σ} {abandoned : Nat}

/-- Neither the counts of tasks nor the tasks that are out have changed. -/
theorem congr (h : d.Tracks abandoned) (hinFlight : d'.metrics.inFlight = d.metrics.inFlight)
    (hdispatched : d'.metrics.dispatched = d.metrics.dispatched)
    (hreported : d'.metrics.reported = d.metrics.reported)
    (hout : d'.board.outIds = d.board.outIds) : d'.Tracks abandoned where
  tracked := by
    rw [hinFlight, hout]
    exact h.tracked
  counted := by
    rw [hdispatched, hreported, ← d'.board.length_outIds, hout, d.board.length_outIds]
    exact h.counted

/-- The ids among the counts, lowest first. -/
theorem keys_inFlight (h : d.Tracks abandoned) (hb : d.board.Coherent) :
    d.metrics.inFlight.keys = d.board.outIds := by
  refine d.metrics.inFlight.pairwise_keys.eq_of_mem_iff (Board.pairwise_outIds hb) fun id => ?_
  rw [← IdMap.contains_iff, h.tracked]

theorem size_inFlight (h : d.Tracks abandoned) (hb : d.board.Coherent) :
    d.metrics.inFlight.size = d.board.load.computing := by
  rw [← Board.length_outIds, ← h.keys_inFlight hb, IdMap.keys, List.length_map, IdMap.size]

end Tracks

/-! ## 2. Operations -/

variable [Ledger σ] [LawfulLedger σ] {d d' : Dispatcher σ} {abandoned : Nat}

/-- No task of an expression that is taken up is out. -/
theorem keptByTakingUp_tracks (out : List Task) (abandoned : Nat) :
    KeptByTakingUp fun d : Dispatcher σ =>
      InStep d.board d.ledger out ∧ d.Tracks abandoned where
  ignores h hignores := ⟨h.1.ignores hignores, h.2.congr rfl rfl rfl rfl⟩
  sets h _ hsets hlive := ⟨h.1.sets_of_not_live hsets hlive, h.2.congr rfl rfl rfl rfl⟩
  addPlan {d id row plan} h hlive hrow hopen hplan := by
    obtain ⟨-, tokens, -, -, htokens⟩ := Plan.exists_tree_of_ofFormula hplan
    have hl := Board.linked_tasksFor htokens d.board id d.timings
    exact ⟨h.1.addPlan hlive hrow hopen htokens,
      h.2.congr rfl rfl rfl (Board.outIds_addPlan h.1.coherent hl)⟩
  recordEnd {d} o h := ⟨h.1, h.2.congr (d.metrics.inFlight_recordEnd o)
    (d.metrics.dispatched_recordEnd o) (d.metrics.reported_recordEnd o) rfl⟩
  recordSubmission h := ⟨h.1, h.2.congr rfl rfl rfl rfl⟩
  recordRecovery _ h := ⟨h.1, h.2.congr rfl rfl rfl rfl⟩
  isLive_of_fresh h := h.1.isLive_of_fresh

/-- A task that is handed out is tracked. -/
theorem Claims.tracks {answer : Except DispatchError Task} (h : Claims d answer d')
    (hb : d.board.Coherent) (hb' : d'.board.Coherent) (htracks : d.Tracks abandoned) :
    d'.Tracks abandoned := by
  cases h with
  | idle nothing => exact htracks
  | refused next ignores => exact htracks.congr rfl rfl rfl rfl
  | @handedOut t row s next found sets =>
    have hget := Board.get?_of_peek? hb next
    have hpending := Board.status_of_peek? hb next
    constructor
    · intro id
      show (d.metrics.inFlight.insert t.id ()).contains id = true ↔ _
      rw [IdMap.contains_insert, Bool.or_eq_true, beq_iff_eq, htracks.tracked,
        Board.mem_outIds_handOut hb hb']
    · have hcount := htracks.counted
      have hout := Board.computing_handOut hget hpending
      show d.metrics.dispatched + 1 =
        d.metrics.reported + (d.board.handOut t.id t).load.computing + abandoned
      omega

omit [Ledger σ] [LawfulLedger σ] in
/-- A task that is reported on is tracked no more. -/
theorem Tracks.progressed (h : d.Tracks abandoned) (hb : d.board.Coherent) {r : Report}
    {failed : Bool} {unblocked : Option Int} {b : Board}
    (hcomplete : d.board.complete r = .ok (.progressed unblocked, b)) :
    ({ d with board := b, metrics := d.metrics.recordReport r.id failed } :
      Dispatcher σ).Tracks abandoned where
  tracked id := by
    show (d.metrics.inFlight.erase r.id).contains id = true ↔ _
    rw [IdMap.contains_erase, Bool.and_eq_true, bne_iff_ne, h.tracked,
      Board.mem_outIds_progressed hb hcomplete]
  counted := by
    have hcount := h.counted
    have hout := Board.computing_complete hb hcomplete
    show d.metrics.dispatched = _
    rw [Metrics.reported_recordReport]
    simp only
    omega

omit [Ledger σ] [LawfulLedger σ] in
/-- The end of an expression takes all of its tasks from those in flight. -/
theorem inFlight_countsAtEnd {r : Report} {e : Int} {o : Outcome} {b : Board} (id : Int) :
    (countsAtEnd d r b e o).inFlight.contains id = true ↔
      id ∉ b.idsOf e ∧ id ≠ r.id ∧ d.metrics.inFlight.contains id = true := by
  rw [countsAtEnd, Metrics.inFlight_recordEnd]
  show ((d.metrics.inFlight.erase r.id).eraseAll (b.idsOf e)).contains id = true ↔ _
  simp only [IdMap.contains_eraseAll, IdMap.contains_erase, Bool.and_eq_true, Bool.not_eq_true',
    List.contains_eq_mem, decide_eq_false_iff_not, bne_iff_ne]

omit [Ledger σ] [LawfulLedger σ] in
/-- When an expression ends, its tasks are tracked no more. Those that were out are
abandoned, but for the one that was reported on. -/
theorem Tracks.ended (h : d.Tracks abandoned) (hb : d.board.Coherent) {r : Report}
    {e : Int} {o : Outcome} {b : Board}
    (hcomplete : d.board.complete r = .ok (.finished e o, b)) (s : σ) :
    ({ d with ledger := s, board := b.evict e, metrics := countsAtEnd d r b e o } :
      Dispatcher σ).Tracks (abandoned + b.outOf e) where
  tracked id := by
    have hreported := Board.mem_idsOf_reported hb hcomplete
    rw [inFlight_countsAtEnd, Board.mem_outIds_ended hb hcomplete, h.tracked]
    refine and_congr_right fun hnot => and_iff_right ?_
    rintro rfl
    exact hnot hreported
  counted := by
    have hcount := h.counted
    have hout := Board.computing_complete hb hcomplete
    have hevict := Board.computing_evict (hb.complete hcomplete) e
    have hreported : (countsAtEnd d r b e o).reported = d.metrics.reported + 1 :=
      (Metrics.reported_recordEnd _ _).trans
        (d.metrics.reported_recordReport r.id r.errorText?.isSome)
    have hdispatched : (countsAtEnd d r b e o).dispatched = d.metrics.dispatched :=
      Metrics.dispatched_recordEnd _ _
    simp only [hdispatched, hreported]
    omega

omit [Ledger σ] [LawfulLedger σ] in
/-- No task is abandoned by an expression that is done. -/
theorem abandons_eq {r : Report} (hb : d.board.Coherent) (hcounted : d.board.Counted) {e : Int}
    {o : Outcome} {b : Board} (hcomplete : d.board.complete r = .ok (.finished e o, b)) :
    d.abandons r = b.outOf e := by
  rw [abandons, hcomplete]
  cases o with
  | done x => exact (Board.outOf_of_done hb hcounted hcomplete).symm
  | failed x error => rfl

theorem Reports.tracks {r : Report} {answer : Except DispatchError Unit}
    (h : Reports d r answer d') (hb : d.board.Coherent) (hcounted : d.board.Counted)
    (htracks : d.Tracks abandoned) : d'.Tracks (abandoned + d.abandons r) := by
  cases h with
  | rejected rejects =>
    rw [abandons, rejects]
    exact htracks
  | progressed completes =>
    rw [abandons, completes]
    exact htracks.progressed hb completes
  | @ended e o b answer s completes finishes =>
    rw [abandons_eq hb hcounted completes]
    exact htracks.ended hb completes s

end Dispatcher

/-! ## 3. Every run -/

namespace Session

/-- How many tasks that are out a request makes leave the board. -/
def abandons (s : Session σ) : Request → Nat
  | .report r => s.dispatcher.abandons r
  | _ => 0

variable [Ledger σ] [LawfulLedger σ] {before : σ} {timings : Timings} {s : Session σ}

theorem tracks_step (h : s.IsInStep) {abandoned : Nat} (htracks : s.dispatcher.Tracks abandoned)
    (q : Request) : (s.step q).dispatcher.Tracks (abandoned + s.abandons q) := by
  have hb := h.coherent
  cases q with
  | submit text owner =>
    exact ((Dispatcher.submits h.valid text owner).keeps
      (Dispatcher.keptByTakingUp_tracks s.handedOut abandoned) ⟨h, htracks⟩).2
  | claim => exact (claims h).tracks hb (isInStep_step h .claim).coherent htracks
  | report r => exact (reports h r).tracks hb h.served.counted htracks
  | recover =>
    exact ((Dispatcher.recovers h.valid).keeps
      (Dispatcher.keptByTakingUp_tracks s.handedOut abandoned) ⟨h, htracks⟩).2

theorem tracks_serve (hvalid : LawfulLedger.Valid before) (qs : List Request) :
    ((start timings before).serve qs).dispatcher.Tracks
      ((start timings before).total abandons qs) := by
  have hstart : (start timings before).dispatcher.Tracks 0 := by
    refine ⟨fun id => ⟨fun h => ?_, fun h => ?_⟩, rfl⟩ <;> cases h
  have htracks := serve_total (P := fun s n => s.dispatcher.Tracks n)
    (fun h hn q => tracks_step h hn q) (isInStep_start hvalid) hstart qs
  rw [Nat.zero_add] at htracks
  exact htracks

/-- Whatever a dispatcher is asked and whichever calls are refused: the ids that are
counted as in flight are those of the tasks that are being computed, and each task
that was handed out has been reported on, is in flight, or left the board when its
expression failed. No task of an expression that has ended is in flight, and a report
that the board refuses changes nothing. -/
theorem in_flight_exact (hvalid : LawfulLedger.Valid before) (qs : List Request) :
    let d := ((start timings before).serve qs).dispatcher
    let abandoned := (start timings before).total abandons qs
    d.metrics.inFlight.keys =
      (d.board.tasks.values.filter fun t => t.status = .computing).map (·.id) ∧
    d.metrics.dispatched =
      d.metrics.tasksCompleted + d.metrics.tasksFailed + d.metrics.inFlight.size + abandoned ∧
    (∀ r e o b, d.board.complete r = .ok (.finished e o, b) → ∀ t ∈ d.board.tasksOf e,
      (d.report r).2.metrics.inFlight.contains t.id = false) ∧
    ∀ r err, (d.report r).1 = .error (.board err) → (d.report r).2 = d := by
  intro d abandoned
  have h : ((start timings before).serve qs).IsInStep :=
    (serve_proceeds (isInStep_start hvalid) qs).1
  have htracks : d.Tracks abandoned := tracks_serve hvalid qs
  refine ⟨htracks.keys_inFlight h.coherent, ?counted, fun r e o b hcomplete t ht => ?ended,
    fun r err herr => ?refused⟩
  case counted =>
    rw [htracks.size_inFlight h.coherent]
    exact htracks.counted
  case ended =>
    have hid : t.id ∈ b.idsOf e :=
      (Board.mem_idsOf_finished h.coherent hcomplete t.id).2 (List.mem_map_of_mem ht)
    have hmetrics : (d.report r).2.metrics = Dispatcher.countsAtEnd d r b e o := by
      rw [Dispatcher.report, hcomplete]
      rfl
    rw [hmetrics, ← Bool.not_eq_true, Dispatcher.inFlight_countsAtEnd]
    exact fun htracked => htracked.1 hid
  case refused =>
    have hreports := Dispatcher.reports h.valid r
    rw [herr] at hreports
    rcases Dispatcher.report_of_error h.coherent hreports.rejects.1 with hreport | ⟨status, hreport⟩
    · rw [hreport]
    · rw [hreport]

/-- Two tasks are out when the first is reported to have failed: the other leaves the
board with it. -/
theorem in_flight_exact_failure :
    let ledger : MemoryLedger := {}
    let requests : List Request := [.submit "1/0+2*3" 1, .submit "4-5" 1, .claim, .claim,
      .report (.failure 1 "division by zero"), .claim]
    let d := ((start {} ledger).serve requests).dispatcher
    d.metrics.dispatched = 3 ∧ (start {} ledger).total abandons requests = 1 ∧
      d.metrics.inFlight.keys = [4] ∧
      d.metrics.inFlight.keys =
        (d.board.tasks.values.filter fun t => t.status = .computing).map (·.id) := by
  intro ledger requests d
  have hempty : LawfulLedger.Valid ledger := fun _ _ h => nomatch h
  have hd : d = ((start {} ledger).serve requests).dispatcher := rfl
  obtain ⟨hkeys, -⟩ := @in_flight_exact _ _ _ ledger {} hempty requests
  rw [← hd] at hkeys
  exact ⟨by decide +kernel, by decide +kernel, by decide +kernel, hkeys⟩

end Session

end Reckoner
