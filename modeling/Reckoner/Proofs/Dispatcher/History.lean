/-
Reckoner.Proofs.Dispatcher.History — what holds between any two moments of a run.

Whatever is asked of a dispatcher, it only moves its board and calls its ledger
(`Dispatcher.Proceeds`), also where calls are refused. So what boards and rows may
become carries over to whole runs. Rows keep their text and their owner and live
once (`rows_live_once`), restarts included. Between two restarts a task is handed
out at most once, at most one report on it is taken, and nothing is heard of it any
more once its expression has ended (`tasks_go_out_once`).

  1. What an operation does
  2. What happens between two moments
  3. The life of a row
  4. Claims and reports
  5. The life of a task
-/
import Reckoner.Proofs.Board.Moves
import Reckoner.Proofs.Board.Verdict
import Reckoner.Proofs.Dispatcher.Calls
import Reckoner.Proofs.Dispatcher.Run

namespace Reckoner

variable {σ : Type} [Ledger σ] [LawfulLedger σ]

/-! ## 1. What an operation does -/

namespace Dispatcher

open Board (Moves)
open Ledger (Calls)

variable {d d' d'' : Dispatcher σ}

/-- The board has been moved and the ledger has been called. -/
structure Proceeds (d d' : Dispatcher σ) : Prop where
  moves : Moves d.board d'.board
  calls : Calls d.ledger d'.ledger

theorem Proceeds.refl (d : Dispatcher σ) : Proceeds d d := ⟨.refl, .refl⟩

theorem Proceeds.trans (h : Proceeds d d') (h' : Proceeds d' d'') : Proceeds d d'' :=
  ⟨h.moves.trans h'.moves, h.calls.trans h'.calls⟩

/-- One call, and the board stays as it is. -/
theorem Proceeds.of_call (hcall : Ledger.Call d.ledger d'.ledger) (hboard : d'.board = d.board) :
    Proceeds d d' := by
  refine ⟨?_, .single hcall⟩
  rw [hboard]

theorem Enqueues.proceeds {id : Int} {plan : Plan} {answer : Except DispatchError Unit}
    (h : Enqueues d id plan answer d') {text : String} (hplan : Plan.ofFormula text = .ok plan) :
    Proceeds d d' := by
  cases h with
  | ended constant found sets => exact .of_call (.ended found (.done _) sets) rfl
  | refused constant ignores => exact .of_call (.ignored ignores) rfl
  | admitted operator =>
    obtain ⟨-, tokens, -, -, htokens⟩ := Plan.exists_tree_of_ofFormula hplan
    exact ⟨.single (.admitted id d.timings htokens), .refl⟩

/-- A row is inserted, and then its formula is taken up. -/
theorem Enqueues.proceeds_new {id : Int} {sub : Submission} {s : σ}
    (hfresh : Ledger.get? id d.ledger = none) (hsets : Ledger.Sets id (sub.row id) d.ledger s)
    {plan : Plan} {answer : Except DispatchError Unit}
    (h : Enqueues { d with ledger := s } id plan answer d') {text : String}
    (hplan : Plan.ofFormula text = .ok plan) : Proceeds d d' := by
  have hinserted : Proceeds d { d with ledger := s } := .of_call (.inserted hfresh hsets) rfl
  exact hinserted.trans (h.proceeds hplan)

theorem Submits.proceeds {text : String} {owner : Int} {answer : Except DispatchError Int}
    (h : Submits d text owner answer d') : Proceeds d d' := by
  cases h with
  | rejected noFormula => exact .refl d
  | refused formula ignores => exact .of_call (.ignored ignores) rfl
  | unrecorded formula fresh sets enqueues => exact enqueues.proceeds_new fresh sets formula
  | taken formula fresh sets enqueues =>
    have htaken := enqueues.proceeds_new fresh sets formula
    exact ⟨htaken.moves, htaken.calls⟩

theorem Claims.proceeds {answer : Except DispatchError Task} (h : Claims d answer d') :
    Proceeds d d' := by
  cases h with
  | idle nothing => exact .refl d
  | refused next ignores => exact .of_call (.ignored ignores) rfl
  | handedOut next found sets => exact ⟨.single (.handedOut next), .single (.started found sets)⟩

theorem Reports.proceeds {r : Report} {answer : Except DispatchError Unit}
    (h : Reports d r answer d') : Proceeds d d' := by
  cases h with
  | rejected rejects => exact .refl d
  | progressed completes => exact ⟨.single (.progressed completes), .refl⟩
  | ended completes finishes =>
    have hcall := finishes.call (Board.explained_of_complete completes)
    exact ⟨.single (.ended completes), .single hcall⟩

theorem RecoversOne.proceeds {counts : RecoveryReport} {e : Expression}
    {answer : Except DispatchError RecoveryReport} (h : RecoversOne d counts e answer d') :
    Proceeds d d' := by
  cases h with
  | skipped live => exact .refl d
  | replayed notLive formula enqueues => exact enqueues.proceeds formula
  | unrecorded notLive formula enqueues => exact enqueues.proceeds formula
  | @rejected err row s notLive noFormula found sets =>
    exact .of_call (.ended found (.failed err.message_ne_empty _) sets) rfl
  | refused notLive noFormula ignores => exact .of_call (.ignored ignores) rfl

theorem RecoversEach.proceeds {counts : RecoveryReport} {es : List Expression}
    {answer : Except DispatchError RecoveryReport} (h : RecoversEach d counts es answer d') :
    Proceeds d d' := by
  induction h with
  | done => exact .refl _
  | stopped valid found isOpen first => exact first.proceeds
  | next valid found isOpen first rest ih => exact first.proceeds.trans ih

theorem Recovers.proceeds {answer : Except DispatchError RecoveryReport}
    (h : Recovers d answer d') : Proceeds d d' := by
  cases h with
  | refused ignores => exact .of_call (.ignored ignores) rfl
  | @stopped es s err d' ignores each =>
    have hlisted : Proceeds d { d with ledger := s } := .of_call (.ignored ignores) rfl
    exact hlisted.trans each.proceeds
  | @recovered es s counts d' ignores all each listed =>
    have hlisted : Proceeds d { d with ledger := s } := .of_call (.ignored ignores) rfl
    have heach := hlisted.trans each.proceeds
    exact ⟨heach.moves, heach.calls⟩

end Dispatcher

/-! ## 2. What happens between two moments -/

namespace Session

open Dispatcher (Proceeds)
open Ledger (Calls)

variable {before : σ} {timings : Timings} {s : Session σ}

omit [LawfulLedger σ] in
/-- The session after some requests, without a restart between them. -/
def serve (s : Session σ) (qs : List Request) : Session σ := qs.foldl step s

theorem claims (h : s.IsInStep) :
    Dispatcher.Claims s.dispatcher s.dispatcher.claim.1 (s.step .claim).dispatcher := by
  rw [dispatcher_claim]
  exact Dispatcher.claims h.valid h.coherent

theorem reports (h : s.IsInStep) (r : Report) :
    Dispatcher.Reports s.dispatcher r (s.dispatcher.report r).1
      (s.step (.report r)).dispatcher :=
  Dispatcher.reports h.valid r

theorem proceeds_step (h : s.IsInStep) (q : Request) :
    Proceeds s.dispatcher (s.step q).dispatcher := by
  cases q with
  | submit text owner => exact (Dispatcher.submits h.valid text owner).proceeds
  | claim => exact (claims h).proceeds
  | report r => exact (reports h r).proceeds
  | recover => exact (Dispatcher.recovers h.valid).proceeds

theorem isInStep_step (h : s.IsInStep) (q : Request) : (s.step q).IsInStep :=
  isInStep_next h (.request q)

theorem serve_proceeds (h : s.IsInStep) (qs : List Request) :
    (s.serve qs).IsInStep ∧ Proceeds s.dispatcher (s.serve qs).dispatcher := by
  induction qs generalizing s with
  | nil => exact ⟨h, .refl _⟩
  | cons q qs ih =>
    obtain ⟨hrest, hproceeds⟩ := ih (isInStep_step h q)
    exact ⟨hrest, (proceeds_step h q).trans hproceeds⟩

omit [LawfulLedger σ] in
/-- Something that each request may add to, summed over some requests. -/
def total (f : Session σ → Request → Nat) (s : Session σ) : List Request → Nat
  | [] => 0
  | q :: qs => f s q + (s.step q).total f qs

/-- What holds of a number at first, and with every addition to it, holds of the
total. -/
theorem serve_total {P : Session σ → Nat → Prop} {f : Session σ → Request → Nat}
    (hstep : ∀ {s : Session σ} {n : Nat}, s.IsInStep → P s n → ∀ q, P (s.step q) (n + f s q))
    (h : s.IsInStep) {n : Nat} (hn : P s n) (qs : List Request) :
    P (s.serve qs) (n + s.total f qs) := by
  induction qs generalizing s n with
  | nil => exact hn
  | cons q qs ih =>
    have hrest := ih (isInStep_step h q) (hstep h hn q)
    rw [Nat.add_assoc] at hrest
    exact hrest

/-- A restart leaves the ledger as it is. -/
theorem calls_run (h : s.IsInStep) (es : List Event) :
    Calls s.dispatcher.ledger (s.run es).dispatcher.ledger := by
  induction es generalizing s with
  | nil => exact .refl
  | cons ev es ih =>
    have hrest := ih (isInStep_next h ev)
    cases ev with
    | restart => exact hrest
    | request q => exact (proceeds_step h q).calls.trans hrest

/-! ## 3. The life of a row -/

/-- A row keeps its text and its owner, its status moves forward only, and once it
has ended nothing about it changes. Until then it has the result zero and no error;
one that is done has no error, and one that failed says why. -/
theorem rows_live_once (hvalid : LawfulLedger.Valid before)
    (hempty : ∀ id, Ledger.get? id before = none) (es later : List Event) :
    let s := (start timings before).run es
    ∀ id row, Ledger.get? id s.dispatcher.ledger = some row →
      (row.isFinished = false → row.result = .zero ∧ row.error = none) ∧
      (row.status = .done → row.error = none) ∧
      (row.status = .error → ∃ text, row.error = some text ∧ text ≠ "") ∧
      ∃ row', Ledger.get? id (s.run later).dispatcher.ledger = some row' ∧
        row'.text = row.text ∧ row'.owner = row.owner ∧ row.status.LeadsTo row'.status ∧
        (row.isFinished = true → row' = row) := by
  intro s id row hrow
  have hstart : (start timings before).IsInStep := isInStep_start hvalid
  have hconsistent : row.Consistent := by
    refine (calls_run hstart es).allConsistent (fun j old hold => ?_) id row hrow
    have hnone := hempty j
    rw [show (start timings before).dispatcher.ledger = before from rfl, hnone] at hold
    cases hold
  obtain ⟨row', hrow', hbecomes⟩ := (calls_run (isInStep_run hstart es) later).becomes hrow
  exact ⟨hconsistent.of_open, hconsistent.of_done, hconsistent.of_error, row', hrow',
    hbecomes.text_eq, hbecomes.owner_eq, hbecomes.leadsTo, hbecomes.frozen⟩

/-- The database does not take the first outcome; after a restart the quotient is
worked out again. -/
theorem rows_live_once_quotient :
    let user : User := ⟨1, "ann", "", ""⟩
    let database : Database := { users := ({} : Table User).insert 1 user }
    let ledger := (FaultyLedger.ofLedger database fun _ => "").withRefusals .finish [true]
    let fails : Event := .request (.report (.failure 1 "division by zero"))
    let events : List Event := [.request (.submit "1/0" 1), .request .claim, fails]
    let later : List Event := [.restart, .request .recover, .request .claim, fails, fails]
    let s := (start {} ledger).run events
    let s' := s.run later
    ∃ row row', Ledger.get? 1 s.dispatcher.ledger = some row ∧ row.status = .computing ∧
      row.result = .zero ∧ row.error = none ∧ Ledger.get? 1 s'.dispatcher.ledger = some row' ∧
      row'.text = row.text ∧ row'.owner = row.owner ∧ row'.status = .error := by
  intro user database ledger fails events later s s'
  have hempty : LawfulLedger.Valid ledger := fun _ _ h => nomatch h
  let row : Expression := { id := 1, text := "1/0", status := .computing, owner := 1 }
  have hrow : Ledger.get? 1 s.dispatcher.ledger = some row := by decide +kernel
  have hended : (Ledger.get? 1 s'.dispatcher.ledger).map (·.status) = some .error := by
    decide +kernel
  have hlife := @rows_live_once _ _ _ ledger {} hempty (fun _ => rfl) events later
  have hs : s = (start {} ledger).run events := rfl
  have hs' : s' = s.run later := rfl
  rw [← hs] at hlife
  obtain ⟨hopen, -, -, row', hrow', htext, howner, -, -⟩ := hlife 1 row hrow
  rw [← hs'] at hrow'
  rw [hrow'] at hended
  obtain ⟨hresult, herror⟩ := hopen rfl
  exact ⟨row, row', hrow, rfl, hresult, herror, hrow', htext, howner, Option.some.inj hended⟩

end Session

/-! ## 4. Claims and reports -/

namespace Dispatcher

variable {d d' : Dispatcher σ}

/-- A claim hands out the task that is next. -/
theorem Claims.exists_next {t : Task} (h : Claims d (.ok t) d') :
    ∃ u, d.board.peek? = some u ∧ t = { u with status := .computing } ∧
      d'.board = d.board.handOut u.id u := by
  cases h with
  | handedOut next found sets => exact ⟨_, next, rfl, rfl⟩

variable {r : Report} {answer : Except DispatchError Unit}

/-- A report that the board does not refuse is on a task that is out with a worker. -/
theorem Reports.exists_computing (h : Reports d r answer d')
    (htaken : ∀ err, answer ≠ .error (.board err)) :
    ∃ t, d.board.get? r.id = some t ∧ t.status = .computing := by
  cases h with
  | rejected rejects => exact absurd rfl (htaken _)
  | progressed completes =>
    obtain ⟨t, ht, hs, -⟩ := Board.completes_of_complete completes
    exact ⟨t, ht, hs⟩
  | ended completes finishes =>
    obtain ⟨t, ht, hs, -⟩ := Board.completes_of_complete completes
    exact ⟨t, ht, hs⟩

/-- It ends that task, also where the ledger does not take the outcome. -/
theorem Reports.hasEnded (h : Reports d r answer d') (hb : d.board.Coherent)
    (htaken : ∀ err, answer ≠ .error (.board err)) : d'.board.HasEnded r.id := by
  cases h with
  | rejected rejects => exact absurd rfl (htaken _)
  | progressed completes => exact Board.hasEnded_progressed hb completes
  | ended completes finishes => exact Board.hasEnded_ended hb completes

/-- What a report on a task that is out with a worker does, by what it decides. -/
inductive Decides (d : Dispatcher σ) (r : Report) (t : Task) :
    Option Outcome → Except DispatchError Unit → Dispatcher σ → Prop
  | goesOn {b : Board} (nextId : b.nextId = d.board.nextId)
      (values : b.tasks.values = Board.tasksAfter r t none d.board.tasks.values) :
      Decides d r t none (.ok ())
        { d with board := b, metrics := d.metrics.recordReport r.id r.errorText?.isSome }
  | ends {o : Outcome} {b : Board} {answer : Except LedgerError Unit} {s : σ}
      (nextId : b.nextId = d.board.nextId)
      (values : (b.evict t.expressionId).tasks.values =
        Board.tasksAfter r t (some o) d.board.tasks.values)
      (sameIds : ∀ id, id ∈ b.idsOf t.expressionId ↔ id ∈ d.board.idsOf t.expressionId)
      (finishes : Ledger.Finishes t.expressionId o d.ledger answer s) :
      Decides d r t (some o) (answer.mapError .ledger)
        { d with ledger := s, board := b.evict t.expressionId
                 metrics := countsAtEnd d r b t.expressionId o }

theorem Reports.decides (h : Reports d r answer d') (hb : d.board.Coherent) {t : Task}
    (ht : d.board.get? r.id = some t) (hs : t.status = .computing) :
    d.Decides r t (d.board.verdict? r t) answer d' := by
  have hdecides := Board.decides hb ht hs
  generalize d.board.verdict? r t = end? at hdecides
  cases hdecides with
  | goesOn completes values =>
    obtain ⟨u, -, -, hc⟩ := Board.completes_of_complete completes
    cases h with
    | rejected rejects => cases completes.symm.trans rejects
    | ended completes' finishes => cases completes.symm.trans completes'
    | progressed completes' =>
      cases completes.symm.trans completes'
      exact .goesOn hc.nextId_eq values
  | ends completes values =>
    obtain ⟨u, -, -, hc⟩ := Board.completes_of_complete completes
    cases h with
    | rejected rejects => cases completes.symm.trans rejects
    | progressed completes' => cases completes.symm.trans completes'
    | ended completes' finishes =>
      cases completes.symm.trans completes'
      exact .ends hc.nextId_eq values (Board.mem_idsOf_finished hb completes) finishes

omit [LawfulLedger σ] in
/-- The board refuses a report on no task, and one on a task that is not out. -/
theorem report_of_error (hb : d.board.Coherent) {err : BoardError}
    (h : d.board.complete r = .error err) :
    d.report r = (.error (.board (.taskNotFound r.id)), d) ∨
      ∃ status, d.report r = (.error (.board (.taskNotClaimed r.id status)), d) := by
  rw [report, h]
  rcases Board.refuses_of_complete h with ⟨-, rfl⟩ | ⟨t, ht, -, rfl⟩
  · exact .inl rfl
  · exact .inr ⟨t.status, by rw [hb.id_eq r.id t ht]⟩

end Dispatcher

/-! ## 5. The life of a task -/

namespace Session

variable {before : σ} {timings : Timings} {s : Session σ} {id : Int}

omit [LawfulLedger σ] in
/-- The board takes a report; the ledger may still refuse its outcome. -/
def Accepts (s : Session σ) (r : Report) : Prop :=
  ∀ err, (s.dispatcher.report r).1 ≠ .error (.board err)

omit [LawfulLedger σ] in
/-- No claim hands out the task of an id, and no report on it is taken. -/
structure IsOver (s : Session σ) (id : Int) : Prop where
  claim : ∀ t, s.dispatcher.claim.1 = .ok t → t.id ≠ id
  report : ∀ r, r.id = id → ¬ s.Accepts r

/-- A task that is handed out has begun. -/
theorem hasBegun_step_claim (h : s.IsInStep) {t : Task} (ht : s.dispatcher.claim.1 = .ok t) :
    (s.step .claim).dispatcher.board.HasBegun t.id := by
  have hclaims := claims h
  rw [ht] at hclaims
  obtain ⟨u, hnext, rfl, hboard⟩ := hclaims.exists_next
  rw [hboard]
  exact Board.hasBegun_handOut h.coherent hnext

theorem ne_of_hasBegun (h : s.IsInStep) (hid : s.dispatcher.board.HasBegun id) :
    ∀ t, s.dispatcher.claim.1 = .ok t → t.id ≠ id := by
  intro t ht
  have hclaims := claims h
  rw [ht] at hclaims
  obtain ⟨u, hnext, rfl, -⟩ := hclaims.exists_next
  have hne := hid.ne_of_peek? h.coherent hnext
  exact hne

theorem isOver_of_hasEnded (h : s.IsInStep) (hid : s.dispatcher.board.HasEnded id) :
    s.IsOver id where
  claim := ne_of_hasBegun h hid.hasBegun
  report r hr htaken := by
    obtain ⟨t, ht, hs⟩ := (reports h r).exists_computing htaken
    have hfinal := hid.ended t (Board.mem_tasks_of_get? h.coherent ht)
      ((h.coherent.id_eq r.id t ht).trans hr)
    rw [hs] at hfinal
    cases hfinal

/-- A task that has ended is over at every later moment. -/
theorem isOver_serve (h : s.IsInStep) (hid : s.dispatcher.board.HasEnded id)
    (qs : List Request) : (s.serve qs).IsOver id := by
  obtain ⟨hlater, hproceeds⟩ := serve_proceeds h qs
  exact isOver_of_hasEnded hlater (hid.later (hproceeds.moves.becomes h.coherent).2)

/-- Once the row of an expression has ended, none of its tasks is on the board. -/
theorem tasksOf_serve_eq_nil (h : s.IsInStep) {e : Int} {row : Expression}
    (hrow : Ledger.get? e s.dispatcher.ledger = some row) (hended : row.isFinished = true)
    (qs : List Request) : (s.serve qs).dispatcher.board.tasksOf e = [] := by
  obtain ⟨hlater, hproceeds⟩ := serve_proceeds h qs
  obtain ⟨row', hrow', hbecomes⟩ := hproceeds.calls.becomes hrow
  rw [hbecomes.frozen hended] at hrow'
  by_contra htasks
  obtain ⟨open', hopen, hcovers⟩ :=
    hlater.covered e ((Board.isLive_iff_tasksOf hlater.coherent e).2 htasks)
  rw [hrow'] at hopen
  cases hopen
  rw [hcovers.isOpen] at hended
  cases hended

/-- As long as the dispatcher is not restarted, whatever it is asked and whichever
calls are refused: no task is handed out twice. At most one report on it is taken,
after it was handed out and before its expression has ended, and every other report
is refused and changes nothing. Once its expression has ended, it is over. -/
theorem tasks_go_out_once (hvalid : LawfulLedger.Valid before) (qs later : List Request) :
    let s := (start timings before).serve qs
    let d := s.dispatcher
    (∀ t, d.claim.1 = .ok t →
      t.status = .computing ∧ t.left.isLiteral = true ∧ t.right.isLiteral = true ∧
      ∀ u, ((s.step .claim).serve later).dispatcher.claim.1 = .ok u → u.id ≠ t.id) ∧
    (∀ r, s.Accepts r →
      (∃ t ∈ s.handedOut, t.id = r.id ∧ d.board.isLive t.expressionId = true ∧
        ∃ row, Ledger.get? t.expressionId d.ledger = some row ∧ row.isFinished = false) ∧
      ((s.step (.report r)).serve later).IsOver r.id) ∧
    (∀ r, ¬ s.Accepts r →
      d.report r = (.error (.board (.taskNotFound r.id)), d) ∨
      ∃ status, d.report r = (.error (.board (.taskNotClaimed r.id status)), d)) ∧
    (∀ t ∈ d.board.tasks.values, ∀ qs',
      (s.serve qs').dispatcher.board.isLive t.expressionId = false →
      ((s.serve qs').serve later).IsOver t.id) ∧
    ∀ e row, Ledger.get? e d.ledger = some row → row.isFinished = true →
      (s.serve later).dispatcher.board.tasksOf e = [] := by
  intro s d
  have h : s.IsInStep := (serve_proceeds (isInStep_start hvalid) qs).1
  refine ⟨fun t ht => ?claimed, fun r htaken => ?taken, fun r hrefused => ?refused,
    fun t ht qs' hgone => ?gone, fun e row hrow hended => tasksOf_serve_eq_nil h hrow hended later⟩
  case claimed =>
    have hclaims := claims h
    rw [ht] at hclaims
    obtain ⟨u, hnext, rfl, -⟩ := hclaims.exists_next
    obtain ⟨-, hliteral⟩ := u.isRunnable_iff.1 (Board.isRunnable_of_peek? h.coherent hnext)
    obtain ⟨hlater, hproceeds⟩ := serve_proceeds (isInStep_step h .claim) later
    refine ⟨rfl, hliteral .left, hliteral .right, ne_of_hasBegun hlater ?_⟩
    exact (hasBegun_step_claim h ht).later
      (hproceeds.moves.becomes (isInStep_step h .claim).coherent).2
  case taken =>
    obtain ⟨t, hget, hs⟩ := (reports h r).exists_computing htaken
    have hlive := h.coherent.isLive_of_get? hget
    obtain ⟨row, hrow, hcovers⟩ := h.covered t.expressionId hlive
    refine ⟨⟨t, h.computing t (Board.mem_tasks_of_get? h.coherent hget) hs,
      h.coherent.id_eq r.id t hget, hlive, row, hrow, hcovers.isOpen⟩, ?_⟩
    exact isOver_serve (isInStep_step h (.report r))
      ((reports h r).hasEnded h.coherent htaken) later
  case refused =>
    obtain ⟨err, herr⟩ := not_forall.1 hrefused
    have hreports := reports h r
    rw [not_not.1 herr] at hreports
    exact Dispatcher.report_of_error h.coherent hreports.rejects.1
  case gone =>
    obtain ⟨hmid, hproceeds⟩ := serve_proceeds h qs'
    exact isOver_serve hmid (Board.hasEnded_of_not_live h.coherent hmid.coherent
      (hproceeds.moves.becomes h.coherent).2 ht hgone) later

/-- The database does not take that the quotient has failed. The recovery works it
out again under a new id, and a second report on the first task is refused. -/
theorem tasks_go_out_once_quotient :
    let ledger := (FaultyLedger.ofLedger ({} : MemoryLedger) fun _ => "").withRefusals
      .finish [true]
    let fails := Report.failure 1 "division by zero"
    let s := (start {} ledger).serve [.submit "1/0" 1, .claim]
    let s' := (s.step (.report fails)).serve [.recover, .report fails]
    let t : Task := ⟨2, 1, .literal "1", .literal "0", .divide, 1000, .computing, none, none⟩
    s.Accepts fails ∧ (∃ u ∈ s.handedOut, u.id = 1) ∧ s'.IsOver 1 ∧
      s'.dispatcher.claim.1 = .ok t := by
  intro ledger fails s s' t
  have hempty : LawfulLedger.Valid ledger := fun _ _ h => nomatch h
  have hanswer : (s.dispatcher.report fails).1 = .error (.ledger (.unavailable "")) := by
    decide +kernel
  have htaken : s.Accepts fails := by
    intro err
    rw [hanswer]
    exact nofun
  have hclaim : s'.dispatcher.claim.1 = .ok t := by decide +kernel
  have hs : s = (start {} ledger).serve [.submit "1/0" 1, .claim] := rfl
  have hs' : s' = (s.step (.report fails)).serve [.recover, .report fails] := rfl
  obtain ⟨-, haccepts, -⟩ :=
    @tasks_go_out_once _ _ _ ledger {} hempty [.submit "1/0" 1, .claim] [.recover, .report fails]
  rw [← hs] at haccepts
  obtain ⟨⟨u, hu, hid, -⟩, hover⟩ := haccepts fails htaken
  rw [← hs'] at hover
  exact ⟨htaken, ⟨u, hu, hid⟩, hover, hclaim⟩

end Session

end Reckoner
