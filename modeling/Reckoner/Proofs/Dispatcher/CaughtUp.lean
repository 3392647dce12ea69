/-
Reckoner.Proofs.Dispatcher.CaughtUp — the live expressions and the unfinished rows.

A live expression always has a row that has not ended (`InStep`). The other way
round a row may be left behind: by a restart, or by a call that was refused when
its expression was taken up or ended. `Behind` lists the rows that may have been.
A recovery that succeeds takes up every one of them, and as long as no call is
refused no request leaves another (`behind_step`). So the board holds exactly the
unfinished rows in every run in which each restart is followed by a recovery
(`live_agrees_with_rows`).

  1. Rows left behind
  2. Taking up expressions
  3. Requests
  4. Every run
-/
import Reckoner.Proofs.Dispatcher.Run

namespace Reckoner

variable {σ : Type} [Ledger σ]

/-! ## 1. Rows left behind -/

/-- Every unfinished row belongs to a live expression or to one of these. -/
def Behind (ids : List Int) (b : Board) (s : σ) : Prop :=
  ∀ e row, Ledger.get? e s = some row → row.isFinished = false → b.isLive e = true ∨ e ∈ ids

namespace Behind

variable {ids : List Int} {b b' : Board} {s s' : σ} {id : Int}

/-- Everything that was live is live still. -/
theorem of_live (h : Behind ids b s) (hlive : ∀ e, b.isLive e = true → b'.isLive e = true) :
    Behind ids b' s :=
  fun e row hrow hopen => (h e row hrow hopen).imp_left (hlive e)

theorem weaken (h : Behind ids b s) (id : Int) : Behind (id :: ids) b s :=
  fun e row hrow hopen => (h e row hrow hopen).imp_right (List.mem_cons_of_mem id)

/-- An expression that is live is not left behind. -/
theorem caught (h : Behind (id :: ids) b s) (hlive : b.isLive id = true) : Behind ids b s := by
  intro e row hrow hopen
  rcases h e row hrow hopen with he | he
  · exact .inl he
  · rcases List.mem_cons.1 he with rfl | he
    · exact .inl hlive
    · exact .inr he

end Behind

variable [LawfulLedger σ]

namespace Behind

variable {ids : List Int} {b b' : Board} {s s' : σ} {id : Int} {row : Expression}

/-- An expression whose row has ended is not left behind, and need not be live. -/
theorem finished (h : Behind (id :: ids) b s) (hsets : Ledger.Sets id row s s')
    (hfinished : row.isFinished = true) (hlive : ∀ e, e ≠ id → b.isLive e = true →
      b'.isLive e = true) : Behind ids b' s' := by
  intro e row' hrow' hopen
  by_cases he : e = id
  · subst he
    rw [hsets.get?_self] at hrow'
    cases hrow'
    rw [hfinished] at hopen
    cases hopen
  · rw [hsets.get?_of_ne he] at hrow'
    exact (h e row' hrow' hopen).imp (hlive e he) fun hmem =>
      (List.mem_cons.1 hmem).resolve_left he

/-- The one expression whose row changes may be left behind. -/
theorem sets (h : Behind ids b s) (hsets : Ledger.Sets id row s s') :
    Behind (id :: ids) b s' := by
  intro e row' hrow' hopen
  by_cases he : e = id
  · exact .inr (List.mem_cons.2 (.inl he))
  · rw [hsets.get?_of_ne he] at hrow'
    exact (h e row' hrow' hopen).imp_right (List.mem_cons_of_mem id)

end Behind

/-- An expression that has ended, now or before, has ended. -/
theorem Expression.isFinished_endedWith (keep : Number → Number) (e : Expression) (o : Outcome) :
    (e.endedWith keep o).isFinished = true := by
  rw [endedWith]
  split
  · next h => exact h
  · cases o <;> rfl

/-! ## 2. Taking up expressions -/

namespace Behind

variable {d d' : Dispatcher σ} {ids : List Int}

/-- An expression that is taken up is live, or it has ended. -/
theorem enqueue {id : Int} (h : Behind (id :: ids) d.board d.ledger) {plan : Plan}
    (henqueues : Dispatcher.Enqueues d id plan (.ok ()) d') {text : String}
    (hplan : Plan.ofFormula text = .ok plan) : Behind ids d'.board d'.ledger := by
  cases henqueues with
  | ended constant found sets =>
    exact h.finished sets (Expression.isFinished_endedWith _ _ _) fun _ _ he => he
  | admitted operator =>
    have hlive : ∀ e, e = id ∨ d.board.isLive e = true →
        (d.board.addPlan id plan d.timings).isLive e = true := fun e he =>
      (d.board.isLive_addPlan id plan d.timings e).2
        (he.imp_left fun he => ⟨Plan.size_ne_zero hplan operator, he⟩)
    exact (h.of_live fun e he => hlive e (.inr he)).caught (hlive id (.inl rfl))

theorem recoverOne {counts counts' : RecoveryReport} {e : Expression}
    (h : Behind (e.id :: ids) d.board d.ledger)
    (hrecovers : Dispatcher.RecoversOne d counts e (.ok counts') d') :
    Behind ids d'.board d'.ledger := by
  cases hrecovers with
  | skipped live => exact h.caught live
  | replayed notLive formula enqueues => exact h.enqueue enqueues formula
  | rejected notLive noFormula found sets =>
    exact h.finished sets (Expression.isFinished_endedWith _ _ _) fun _ _ he => he

theorem recoverEach {counts : RecoveryReport} {es : List Expression}
    {answer : Except DispatchError RecoveryReport} (h : Behind (es.map (·.id)) d.board d.ledger)
    (hrecovers : Dispatcher.RecoversEach d counts es answer d') {counts' : RecoveryReport}
    (hanswer : answer = .ok counts') : Behind [] d'.board d'.ledger := by
  induction hrecovers with
  | done => exact h
  | stopped valid found isOpen first => cases hanswer
  | next valid found isOpen first rest ih => exact ih (h.recoverOne first) hanswer

end Behind

/-! ## 3. Requests -/

/-- The refusal of the ledger that an answer passes on. -/
def refusalOf {α : Type} : Except DispatchError α → Option LedgerError
  | .error (.ledger err) => some err
  | _ => none

namespace Behind

variable {d d' : Dispatcher σ}

theorem submit (h : Behind [] d.board d.ledger) {text : String} {owner : Int}
    {answer : Except DispatchError Int} (hsubmits : Dispatcher.Submits d text owner answer d')
    (hanswer : refusalOf answer = none) : Behind [] d'.board d'.ledger := by
  cases hsubmits with
  | rejected noFormula => exact h
  | refused formula ignores => cases hanswer
  | unrecorded formula fresh sets enqueues =>
    obtain ⟨refusal, rfl⟩ := enqueues.exists_ledger
    cases hanswer
  | @taken plan id s d' formula fresh sets enqueues =>
    have htaken := enqueue (d := { d with ledger := s }) (h.sets sets) enqueues formula
    exact htaken

/-- Handing out a task neither ends a row nor takes an expression off the board. -/
theorem claim (h : Behind [] d.board d.ledger) {answer : Except DispatchError Task}
    (hclaims : Dispatcher.Claims d answer d') (hanswer : refusalOf answer = none) :
    Behind [] d'.board d'.ledger := by
  cases hclaims with
  | idle nothing => exact h
  | refused next ignores => cases hanswer
  | @handedOut t row s next found sets =>
    intro e row' hrow' hopen
    by_cases he : e = t.expressionId
    · subst he
      rw [sets.get?_self] at hrow'
      cases hrow'
      rw [row.isFinished_started] at hopen
      exact h t.expressionId row found hopen
    · rw [sets.get?_of_ne he] at hrow'
      exact h e row' hrow' hopen

/-- The expression of a report stays live, or its row ends. -/
theorem report {out : List Task} (h : Behind [] d.board d.ledger)
    (hstep : InStep d.board d.ledger out) {r : Report} {answer : Except DispatchError Unit}
    (hreports : Dispatcher.Reports d r answer d') (hanswer : refusalOf answer = none) :
    Behind [] d'.board d'.ledger := by
  have hnext := hreports.keeps (InStep.keptByChanges out) hstep
  cases hreports with
  | rejected rejects => exact h
  | @progressed unblocked b completes =>
    obtain ⟨t, ht, hs, hc⟩ := Board.completes_of_complete completes
    refine h.of_live fun e he => ?_
    obtain ⟨u, hu, hue⟩ := (Board.isLive_iff_exists_mem hstep.coherent e).1 he
    refine (Board.isLive_iff_exists_mem hnext.coherent e).2 ⟨Board.afterValue r u, ?_, ?_⟩
    · cases hc with
      | progressed isValue some_left =>
        rw [Board.values_afterValue hstep.coherent ht hs]
        exact List.mem_map_of_mem hu
    · rw [Board.expressionId_afterValue, hue]
  | @ended e o b answer s completes finishes =>
    obtain ⟨t, ht, hs, hc⟩ := Board.completes_of_complete completes
    have howner := hc.owner_of_finished
    subst howner
    cases finishes with
    | refused ignores => cases hanswer
    | recorded found sets =>
      refine (h.weaken t.expressionId).finished sets (Expression.isFinished_endedWith _ _ _)
        fun e hne he => ?_
      obtain ⟨u, hu, hue⟩ := (Board.isLive_iff_exists_mem hstep.coherent e).1 he
      refine (Board.isLive_iff_exists_mem hnext.coherent e).2 ⟨u, ?_, hue⟩
      rw [Board.values_evict_of_completes hstep.coherent ht hs hc rfl, List.mem_filter,
        bne_iff_ne, hue]
      exact ⟨hu, hne⟩

/-- After a recovery no row is left behind, wherever the dispatcher stood. -/
theorem recover {answer : Except DispatchError RecoveryReport}
    (hvalid : LawfulLedger.Valid d.ledger) (hrecovers : Dispatcher.Recovers d answer d')
    (hanswer : refusalOf answer = none) : Behind [] d'.board d'.ledger := by
  cases hrecovers with
  | refused ignores => cases hanswer
  | stopped ignores each =>
    obtain ⟨refusal, rfl⟩ := each.exists_ledger rfl
    cases hanswer
  | @recovered es s counts d' ignores all each listed =>
    have hall : Behind (es.map (·.id)) d.board s := by
      intro e row hrow hopen
      rw [ignores.same] at hrow
      have hid := LawfulLedger.get?_id hvalid hrow
      subst hid
      exact .inr (List.mem_map_of_mem ((all row).2 ⟨hrow, hopen⟩))
    have heach := recoverEach (d := { d with ledger := s }) hall each rfl
    exact heach

end Behind

/-! ## 4. Every run -/

namespace Session

/-- Why a call of the ledger is refused in an event, if one is. -/
def refusal? (s : Session σ) : Event → Option LedgerError
  | .request (.submit text owner) => refusalOf (s.dispatcher.submit text owner).1
  | .request .claim => refusalOf s.dispatcher.claim.1
  | .request (.report r) => refusalOf (s.dispatcher.report r).1
  | .request .recover => refusalOf s.dispatcher.recover.1
  | .restart => none

/-- No call of the ledger is refused in any of these events. -/
def Unrefused : Session σ → List Event → Prop
  | _, [] => True
  | s, ev :: es => s.refusal? ev = none ∧ (s.next ev).Unrefused es

/-- After each restart comes a recovery, before anything else. -/
def RecoversAfterRestart : List Event → Prop
  | [] => True
  | .restart :: es => es.head? = some (.request .recover) ∧ RecoversAfterRestart es
  | .request _ :: es => RecoversAfterRestart es

variable {before : σ} {timings : Timings} {s : Session σ}

/-- A request that is not refused leaves no row behind. A recovery takes up those
that were. -/
theorem behind_step (h : s.IsInStep) {q : Request}
    (hbehind : Behind [] s.dispatcher.board s.dispatcher.ledger ∨ q = .recover)
    (hq : s.refusal? (.request q) = none) :
    Behind [] (s.step q).dispatcher.board (s.step q).dispatcher.ledger := by
  rcases hbehind with hbehind | rfl
  · cases q with
    | submit text owner => exact hbehind.submit (Dispatcher.submits h.valid text owner) hq
    | report r => exact hbehind.report h (Dispatcher.reports h.valid r) hq
    | recover => exact Behind.recover h.valid (Dispatcher.recovers h.valid) hq
    | claim =>
      rw [dispatcher_claim]
      exact hbehind.claim (Dispatcher.claims h.valid h.coherent) hq
  · exact Behind.recover h.valid (Dispatcher.recovers h.valid) hq

theorem behind_run {es : List Event} (h : s.IsInStep) (hrestarts : RecoversAfterRestart es)
    (hunrefused : s.Unrefused es) (hbehind : Behind [] s.dispatcher.board s.dispatcher.ledger ∨
      es.head? = some (.request .recover)) :
    Behind [] (s.run es).dispatcher.board (s.run es).dispatcher.ledger := by
  induction es generalizing s with
  | nil => exact hbehind.resolve_right fun hhead => nomatch hhead
  | cons ev es ih =>
    have hnext := isInStep_next h ev
    cases ev with
    | restart =>
      obtain ⟨hrecovers, hrest⟩ := hrestarts
      exact ih hnext hrest hunrefused.2 (.inr hrecovers)
    | request q =>
      have hstep := behind_step h (q := q) (hbehind.imp_right fun hhead => by
        cases hhead
        rfl) hunrefused.1
      exact ih hnext hrestarts hunrefused.2 (.inl hstep)

/-- A live expression has a row that has not ended, and that has started if one of
its tasks has. While no call is refused and each restart is followed by a recovery,
the live expressions are exactly those whose rows have not ended. -/
theorem live_agrees_with_rows (hvalid : LawfulLedger.Valid before) (es : List Event) :
    let s := (start timings before).run es
    let b := s.dispatcher.board
    (∀ e, b.isLive e = true → ∃ row, Ledger.get? e s.dispatcher.ledger = some row ∧
      (row.status = .pending ∨ row.status = .computing) ∧
      ((∃ t ∈ b.tasksOf e, t.status ≠ .pending) → row.status = .computing)) ∧
    (RecoversAfterRestart es → (start timings before).Unrefused es →
      (∀ e row, Ledger.get? e before = some row → row.isFinished = true) ∨
        es.head? = some (.request .recover) →
      ∀ e, b.isLive e = true ↔
        ∃ row, Ledger.get? e s.dispatcher.ledger = some row ∧ row.isFinished = false) := by
  intro s b
  have hstart : (start timings before).IsInStep := isInStep_start hvalid
  have h : s.IsInStep := isInStep_run hstart es
  refine ⟨fun e he => ?_, fun hrestarts hunrefused hbefore e => ⟨fun he => ?_, ?_⟩⟩
  · obtain ⟨row, hrow, hcovers⟩ := h.covered e he
    refine ⟨row, hrow, Expression.pending_or_computing hcovers.isOpen, ?_⟩
    rintro ⟨t, ht, hs⟩
    obtain ⟨hmem, hte⟩ := List.mem_filter.1 ht
    exact hcovers.started t hmem (beq_iff_eq.1 hte) hs
  · obtain ⟨row, hrow, hcovers⟩ := h.covered e he
    exact ⟨row, hrow, hcovers.isOpen⟩
  · rintro ⟨row, hrow, hopen⟩
    have hbehind := behind_run hstart hrestarts hunrefused (hbefore.imp_left fun hall => ?_)
    · exact (hbehind e row hrow hopen).resolve_right List.not_mem_nil
    · intro e row hrow hopen
      rw [hall e row hrow] at hopen
      cases hopen

/-- The first expression has started, and is taken up again after the restart. -/
theorem live_agrees_with_rows_restarted :
    let events : List Event := [.request (.submit "1+2" 1), .request (.submit "5" 1),
      .request .claim, .restart, .request .recover, .request (.submit "6*7" 2)]
    let s := (start {} ({} : MemoryLedger)).run events
    s.dispatcher.board.isLive 1 = true ∧ s.dispatcher.board.isLive 2 = false ∧
      ∀ e, s.dispatcher.board.isLive e = true ↔
        ∃ row, Ledger.get? e s.dispatcher.ledger = some row ∧ row.isFinished = false := by
  intro events s
  have hempty : LawfulLedger.Valid ({} : MemoryLedger) := fun _ _ h => nomatch h
  have hrestarts : RecoversAfterRestart events := ⟨rfl, trivial⟩
  have hunrefused : (start {} ({} : MemoryLedger)).Unrefused events := by
    refine ⟨?_, ?_, ?_, rfl, ?_, ?_, trivial⟩
    all_goals decide +kernel
  have hs : s = (start {} ({} : MemoryLedger)).run events := rfl
  obtain ⟨-, hlive⟩ := @live_agrees_with_rows _ _ _ ({} : MemoryLedger) {} hempty events
  rw [← hs] at hlive
  exact ⟨by decide +kernel, by decide +kernel,
    hlive hrestarts hunrefused (.inl fun _ _ h => nomatch h)⟩

end Session

end Reckoner
