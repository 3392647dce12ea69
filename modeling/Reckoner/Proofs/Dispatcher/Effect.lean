/-
Reckoner.Proofs.Dispatcher.Effect — what each operation does to a dispatcher.

For each operation one inductive lists everything that can come of it over a
lawful ledger: the answer together with the dispatcher that is left. A call that
the ledger refuses shows up as `Ledger.Ignores`, one that it takes as the new row
of one expression (`Ledger.Sets`), so later proofs open neither the operations
nor the ledger.

All but a claim are made of a few changes of the board and of the ledger, so that
what each of these changes keeps is kept by the operations (`KeptByChanges`).

  1. Calls of a ledger
  2. Submitting
  3. Handing out
  4. Reporting
  5. Recovering
  6. What the changes keep
-/
import Reckoner.Dispatcher
import Reckoner.Proofs.Board.Scan
import Reckoner.Proofs.Ledger.Lawful

namespace Reckoner

variable {σ : Type} [Ledger σ] [LawfulLedger σ]

/-! ## 1. Calls of a ledger -/

namespace Ledger

/-- Nothing is recorded. -/
structure Ignores (s s' : σ) : Prop where
  valid : LawfulLedger.Valid s'
  same : SameRows s s'

/-- The row of one expression is set, and nothing else is recorded. -/
structure Sets (id : Int) (row : Expression) (s s' : σ) : Prop where
  valid : LawfulLedger.Valid s'
  sets : SetsRow id row s s'

variable {id : Int} {row : Expression} {s s' : σ}

theorem Sets.get?_self (h : Sets id row s s') : get? id s' = some row := by
  rw [h.sets, if_pos rfl]

theorem Sets.get?_of_ne (h : Sets id row s s') {j : Int} (hj : j ≠ id) :
    get? j s' = get? j s := by
  rw [h.sets, if_neg hj]

/-- What comes of recording how an expression ended. -/
inductive Finishes (id : Int) (o : Outcome) (s : σ) : Except LedgerError Unit → σ → Prop
  | recorded {row : Expression} {s' : σ} (found : get? id s = some row)
      (sets : Sets id (row.endedWith (LawfulLedger.keep σ) o) s s') : Finishes id o s (.ok ()) s'
  | refused {err : LedgerError} {s' : σ} (ignores : Ignores s s') :
      Finishes id o s (.error err) s'

theorem finishes (h : LawfulLedger.Valid s) {o : Outcome} {answer : Except LedgerError Unit}
    (hcall : finish id o s = (answer, s')) : Finishes id o s answer s' := by
  cases answer with
  | error err =>
    obtain ⟨hvalid, hsame⟩ := LawfulLedger.finish_error h hcall
    exact .refused ⟨hvalid, hsame⟩
  | ok _ =>
    obtain ⟨hvalid, row, hrow, hsets⟩ := LawfulLedger.finish_ok h hcall
    exact .recorded hrow ⟨hvalid, hsets⟩

end Ledger

namespace Dispatcher

variable {d d' : Dispatcher σ}

open Ledger (Ignores Sets Finishes)

/-! ## 2. Submitting -/

/-- What comes of taking up an expression: a formula without operators ends, if the
ledger takes it, and any other comes on the board. -/
inductive Enqueues (d : Dispatcher σ) (id : Int) (plan : Plan) :
    Except DispatchError Unit → Dispatcher σ → Prop
  | ended {value : Number} {row : Expression} {s : σ} (constant : plan.constant? = some value)
      (found : Ledger.get? id d.ledger = some row)
      (sets : Sets id (row.endedWith (LawfulLedger.keep σ) (.done value)) d.ledger s) :
      Enqueues d id plan (.ok ())
        { d with ledger := s, metrics := d.metrics.recordEnd (.done value) }
  | refused {value : Number} {err : LedgerError} {s : σ} (constant : plan.constant? = some value)
      (ignores : Ignores d.ledger s) :
      Enqueues d id plan (.error (.ledger err)) { d with ledger := s }
  | admitted (operator : plan.constant? = none) :
      Enqueues d id plan (.ok ()) { d with board := d.board.addPlan id plan d.timings }

namespace Enqueues

variable {id : Int} {plan : Plan} {answer : Except DispatchError Unit}

theorem valid (h : Enqueues d id plan answer d') (hvalid : LawfulLedger.Valid d.ledger) :
    LawfulLedger.Valid d'.ledger := by
  cases h with
  | ended constant found sets => exact sets.valid
  | refused constant ignores => exact ignores.valid
  | admitted operator => exact hvalid

/-- The rows of the other expressions stay as they are. -/
theorem get?_of_ne (h : Enqueues d id plan answer d') {j : Int} (hj : j ≠ id) :
    Ledger.get? j d'.ledger = Ledger.get? j d.ledger := by
  cases h with
  | ended constant found sets => exact sets.get?_of_ne hj
  | refused constant ignores => exact ignores.same j
  | admitted operator => rfl

/-- Only the ledger keeps an expression from being taken up. -/
theorem exists_ledger {err : DispatchError} (h : Enqueues d id plan (.error err) d') :
    ∃ refusal, err = .ledger refusal := by
  cases h with
  | refused constant ignores => exact ⟨_, rfl⟩

end Enqueues

theorem enqueues (h : LawfulLedger.Valid d.ledger) (id : Int) (plan : Plan) :
    Enqueues d id plan (d.enqueue id plan).1 (d.enqueue id plan).2 := by
  rw [enqueue]
  cases hconstant : plan.constant? with
  | none => exact .admitted hconstant
  | some value =>
    cases hcall : Ledger.finish id (.done value) d.ledger with
    | mk answer s =>
      simp only [hcall]
      cases Ledger.finishes h hcall with
      | recorded found sets => exact .ended hconstant found sets
      | refused ignores => exact .refused hconstant ignores

/-- What comes of a submission. -/
inductive Submits (d : Dispatcher σ) (text : String) (owner : Int) :
    Except DispatchError Int → Dispatcher σ → Prop
  | rejected {err : FormulaError} (noFormula : Plan.ofFormula text = .error err) :
      Submits d text owner (.error (.formula err)) d
  | refused {plan : Plan} {err : LedgerError} {s : σ} (formula : Plan.ofFormula text = .ok plan)
      (ignores : Ignores d.ledger s) :
      Submits d text owner (.error (.ledger err)) { d with ledger := s }
  /-- The row is there, but how it ended was not recorded. -/
  | unrecorded {plan : Plan} {id : Int} {s : σ} {err : DispatchError} {d' : Dispatcher σ}
      (formula : Plan.ofFormula text = .ok plan) (fresh : Ledger.get? id d.ledger = none)
      (sets : Sets id (Submission.row ⟨text, owner⟩ id) d.ledger s)
      (enqueues : Enqueues { d with ledger := s } id plan (.error err) d') :
      Submits d text owner (.error err) d'
  | taken {plan : Plan} {id : Int} {s : σ} {d' : Dispatcher σ}
      (formula : Plan.ofFormula text = .ok plan) (fresh : Ledger.get? id d.ledger = none)
      (sets : Sets id (Submission.row ⟨text, owner⟩ id) d.ledger s)
      (enqueues : Enqueues { d with ledger := s } id plan (.ok ()) d') :
      Submits d text owner (.ok id) { d' with metrics := d'.metrics.recordSubmission }

theorem submits (h : LawfulLedger.Valid d.ledger) (text : String) (owner : Int) :
    Submits d text owner (d.submit text owner).1 (d.submit text owner).2 := by
  rw [submit]
  split
  · next err hplan => exact .rejected hplan
  · next plan hplan =>
    split
    · next err s hcall =>
      obtain ⟨hvalid, hsame⟩ := LawfulLedger.insert_error h hcall
      exact .refused hplan ⟨hvalid, hsame⟩
    · next id s hcall =>
      obtain ⟨hvalid, hfresh, hsets⟩ := LawfulLedger.insert_ok h hcall
      have henqueues := enqueues (d := { d with ledger := s }) hvalid id plan
      cases henq : enqueue { d with ledger := s } id plan with
      | mk answer d' =>
        rw [henq] at henqueues
        cases answer with
        | error err => exact .unrecorded hplan hfresh ⟨hvalid, hsets⟩ henqueues
        | ok _ => exact .taken hplan hfresh ⟨hvalid, hsets⟩ henqueues

/-! ## 3. Handing out -/

/-- What comes of a claim. -/
inductive Claims (d : Dispatcher σ) : Except DispatchError Task → Dispatcher σ → Prop
  | idle (nothing : d.board.peek? = none) : Claims d (.error .noTaskAvailable) d
  | refused {t : Task} {err : LedgerError} {s : σ} (next : d.board.peek? = some t)
      (ignores : Ignores d.ledger s) :
      Claims d (.error (.ledger err)) { d with ledger := s }
  | handedOut {t : Task} {row : Expression} {s : σ} (next : d.board.peek? = some t)
      (found : Ledger.get? t.expressionId d.ledger = some row)
      (sets : Sets t.expressionId row.started d.ledger s) :
      Claims d (.ok { t with status := .computing })
        { d with
          ledger := s
          board := d.board.handOut t.id t
          metrics := d.metrics.recordDispatch t.id }

theorem Claims.nothing (h : Claims d (.error .noTaskAvailable) d') : d.board.peek? = none := by
  cases h with
  | idle nothing => exact nothing

omit [LawfulLedger σ] in
/-- The task at the head goes out once its expression can be started. -/
theorem claim_of_start (hb : d.board.Coherent) {t : Task} (hpeek : d.board.peek? = some t)
    (hstart : (Ledger.start t.expressionId d.ledger).1 = .ok ()) :
    d.claim.1 = .ok { t with status := .computing } := by
  rw [claim, hpeek]
  dsimp only
  cases hcall : Ledger.start t.expressionId d.ledger with
  | mk answer s =>
    rw [hcall] at hstart
    cases hstart
    rw [Board.claim?_of_peek? hb hpeek]

theorem claims (h : LawfulLedger.Valid d.ledger) (hb : d.board.Coherent) :
    Claims d d.claim.1 d.claim.2 := by
  rw [claim]
  cases hpeek : d.board.peek? with
  | none => exact .idle hpeek
  | some t =>
    have hclaim := Board.claim?_of_peek? hb hpeek
    cases hcall : Ledger.start t.expressionId d.ledger with
    | mk answer s =>
      simp only [hcall, hclaim]
      cases answer with
      | error err =>
        obtain ⟨hvalid, hsame⟩ := LawfulLedger.start_error h hcall
        exact .refused hpeek ⟨hvalid, hsame⟩
      | ok _ =>
        obtain ⟨hvalid, row, hrow, hsets⟩ := LawfulLedger.start_ok h hcall
        exact .handedOut hpeek hrow ⟨hvalid, hsets⟩

/-! ## 4. Reporting -/

/-- The counts once a report has ended an expression. -/
def countsAtEnd (d : Dispatcher σ) (r : Report) (b : Board) (e : Int) (o : Outcome) : Metrics :=
  ((d.metrics.recordReport r.id r.errorText?.isSome).forget (b.idsOf e)).recordEnd o

/-- What comes of a report. -/
inductive Reports (d : Dispatcher σ) (r : Report) : Except DispatchError Unit → Dispatcher σ → Prop
  | rejected {err : BoardError} (rejects : d.board.complete r = .error err) :
      Reports d r (.error (.board err)) d
  | progressed {unblocked : Option Int} {b : Board}
      (completes : d.board.complete r = .ok (.progressed unblocked, b)) :
      Reports d r (.ok ())
        { d with board := b, metrics := d.metrics.recordReport r.id r.errorText?.isSome }
  /-- The tasks leave the board, whether or not the ledger takes the outcome. -/
  | ended {e : Int} {o : Outcome} {b : Board} {answer : Except LedgerError Unit} {s : σ}
      (completes : d.board.complete r = .ok (.finished e o, b))
      (finishes : Finishes e o d.ledger answer s) :
      Reports d r (answer.mapError .ledger)
        { d with ledger := s, board := b.evict e, metrics := countsAtEnd d r b e o }

/-- Only the board refuses a report in its own words, and then nothing has happened. -/
theorem Reports.rejects {r : Report} {err : BoardError}
    (h : Reports d r (.error (.board err)) d') : d.board.complete r = .error err ∧ d' = d := by
  generalize hanswer : Except.error (DispatchError.board err) = answer at h
  cases h with
  | rejected rejects =>
    cases hanswer
    exact ⟨rejects, rfl⟩
  | progressed completes => cases hanswer
  | ended completes finishes => cases finishes <;> cases hanswer

theorem reports (h : LawfulLedger.Valid d.ledger) (r : Report) :
    Reports d r (d.report r).1 (d.report r).2 := by
  rw [report]
  split
  · next err hcomplete => exact .rejected hcomplete
  · next completion b hcomplete =>
    cases completion with
    | progressed unblocked => exact .progressed hcomplete
    | finished e o =>
      cases hcall : Ledger.finish e o d.ledger with
      | mk answer s =>
        simp only [hcall]
        exact .ended hcomplete (Ledger.finishes h hcall)

/-! ## 5. Recovering -/

/-- What comes of taking up one unfinished expression again. -/
inductive RecoversOne (d : Dispatcher σ) (counts : RecoveryReport) (e : Expression) :
    Except DispatchError RecoveryReport → Dispatcher σ → Prop
  | skipped (live : d.board.isLive e.id = true) :
      RecoversOne d counts e (.ok { counts with skipped := counts.skipped + 1 }) d
  | replayed {plan : Plan} {d' : Dispatcher σ} (notLive : d.board.isLive e.id = false)
      (formula : Plan.ofFormula e.text = .ok plan) (enqueues : Enqueues d e.id plan (.ok ()) d') :
      RecoversOne d counts e (.ok { counts with replayed := counts.replayed + 1 }) d'
  | unrecorded {plan : Plan} {err : DispatchError} {d' : Dispatcher σ}
      (notLive : d.board.isLive e.id = false) (formula : Plan.ofFormula e.text = .ok plan)
      (enqueues : Enqueues d e.id plan (.error err) d') :
      RecoversOne d counts e (.error err) d'
  | rejected {err : FormulaError} {row : Expression} {s : σ}
      (notLive : d.board.isLive e.id = false) (noFormula : Plan.ofFormula e.text = .error err)
      (found : Ledger.get? e.id d.ledger = some row)
      (sets : Sets e.id (row.endedWith (LawfulLedger.keep σ) (.failed .zero err.message))
        d.ledger s) :
      RecoversOne d counts e (.ok { counts with rejected := counts.rejected + 1 })
        { d with ledger := s }
  | refused {err : FormulaError} {refusal : LedgerError} {s : σ}
      (notLive : d.board.isLive e.id = false) (noFormula : Plan.ofFormula e.text = .error err)
      (ignores : Ignores d.ledger s) :
      RecoversOne d counts e (.error (.ledger refusal)) { d with ledger := s }

namespace RecoversOne

variable {counts : RecoveryReport} {e : Expression}
  {answer : Except DispatchError RecoveryReport}

theorem valid (h : RecoversOne d counts e answer d') (hvalid : LawfulLedger.Valid d.ledger) :
    LawfulLedger.Valid d'.ledger := by
  cases h with
  | skipped live => exact hvalid
  | replayed notLive formula enqueues => exact enqueues.valid hvalid
  | unrecorded notLive formula enqueues => exact enqueues.valid hvalid
  | rejected notLive noFormula found sets => exact sets.valid
  | refused notLive noFormula ignores => exact ignores.valid

theorem get?_of_ne (h : RecoversOne d counts e answer d') {j : Int} (hj : j ≠ e.id) :
    Ledger.get? j d'.ledger = Ledger.get? j d.ledger := by
  cases h with
  | skipped live => rfl
  | replayed notLive formula enqueues => exact enqueues.get?_of_ne hj
  | unrecorded notLive formula enqueues => exact enqueues.get?_of_ne hj
  | rejected notLive noFormula found sets => exact sets.get?_of_ne hj
  | refused notLive noFormula ignores => exact ignores.same j

theorem exists_ledger {err : DispatchError} (h : RecoversOne d counts e (.error err) d') :
    ∃ refusal, err = .ledger refusal := by
  cases h with
  | unrecorded notLive formula enqueues => exact enqueues.exists_ledger
  | refused notLive noFormula ignores => exact ⟨_, rfl⟩

/-- An expression that cannot be taken up is left as it was. -/
theorem ignores_of_error {err : DispatchError} (h : RecoversOne d counts e (.error err) d') :
    ∃ s, Ignores d.ledger s ∧ d' = { d with ledger := s } := by
  cases h with
  | unrecorded notLive formula enqueues =>
    cases enqueues with
    | refused constant ignores => exact ⟨_, ignores, rfl⟩
  | refused notLive noFormula ignores => exact ⟨_, ignores, rfl⟩

end RecoversOne

theorem recoversOne (h : LawfulLedger.Valid d.ledger) (counts : RecoveryReport) (e : Expression) :
    RecoversOne d counts e (d.recoverOne counts e).1 (d.recoverOne counts e).2 := by
  rw [recoverOne]
  split
  · next hlive => exact .skipped hlive
  · next hlive =>
    rw [Bool.not_eq_true] at hlive
    split
    · next plan hplan =>
      have henqueues := enqueues h e.id plan
      cases henq : d.enqueue e.id plan with
      | mk answer d' =>
        rw [henq] at henqueues
        cases answer with
        | error err => exact .unrecorded hlive hplan henqueues
        | ok _ => exact .replayed hlive hplan henqueues
    · next err herr =>
      cases hcall : Ledger.finish e.id (.failed .zero err.message) d.ledger with
      | mk answer s =>
        cases Ledger.finishes h hcall with
        | recorded found sets => exact .rejected hlive herr found sets
        | refused ignores => exact .refused hlive herr ignores

/-- What comes of taking up some expressions one by one. When its turn comes, each
of them still has the row that it was found with. -/
inductive RecoversEach : Dispatcher σ → RecoveryReport → List Expression →
    Except DispatchError RecoveryReport → Dispatcher σ → Prop
  | done {d : Dispatcher σ} {counts : RecoveryReport} : RecoversEach d counts [] (.ok counts) d
  | stopped {d d' : Dispatcher σ} {counts : RecoveryReport} {e : Expression}
      {es : List Expression} {err : DispatchError} (valid : LawfulLedger.Valid d.ledger)
      (found : Ledger.get? e.id d.ledger = some e) (isOpen : e.isFinished = false)
      (first : RecoversOne d counts e (.error err) d') :
      RecoversEach d counts (e :: es) (.error err) d'
  | next {d d' d'' : Dispatcher σ} {counts counts' : RecoveryReport} {e : Expression}
      {es : List Expression} {answer : Except DispatchError RecoveryReport}
      (valid : LawfulLedger.Valid d.ledger)
      (found : Ledger.get? e.id d.ledger = some e) (isOpen : e.isFinished = false)
      (first : RecoversOne d counts e (.ok counts') d')
      (rest : RecoversEach d' counts' es answer d'') :
      RecoversEach d counts (e :: es) answer d''

theorem RecoversEach.valid {counts : RecoveryReport} {es : List Expression}
    {answer : Except DispatchError RecoveryReport} (h : RecoversEach d counts es answer d')
    (hvalid : LawfulLedger.Valid d.ledger) : LawfulLedger.Valid d'.ledger := by
  induction h with
  | done => exact hvalid
  | stopped valid found isOpen first => exact first.valid valid
  | next valid found isOpen first rest ih => exact ih (first.valid valid)

/-- Only the ledger stops a recovery. -/
theorem RecoversEach.exists_ledger {counts : RecoveryReport} {es : List Expression}
    {answer : Except DispatchError RecoveryReport} (h : RecoversEach d counts es answer d')
    {err : DispatchError} (hanswer : answer = .error err) : ∃ refusal, err = .ledger refusal := by
  induction h with
  | done => cases hanswer
  | stopped valid found isOpen first =>
    cases hanswer
    exact first.exists_ledger
  | next valid found isOpen first rest ih => exact ih hanswer

theorem recoversEach (h : LawfulLedger.Valid d.ledger) (counts : RecoveryReport)
    {es : List Expression} (hnodup : (es.map (·.id)).Nodup)
    (hrows : ∀ e ∈ es, Ledger.get? e.id d.ledger = some e ∧ e.isFinished = false) :
    RecoversEach d counts es (d.recoverEach counts es).1 (d.recoverEach counts es).2 := by
  induction es generalizing d counts with
  | nil => exact .done
  | cons e es ih =>
    have hnd := List.nodup_cons.1 hnodup
    obtain ⟨hfound, hopen⟩ := hrows e List.mem_cons_self
    have hfirst := recoversOne h counts e
    rw [recoverEach]
    cases hcall : d.recoverOne counts e with
    | mk answer d' =>
      rw [hcall] at hfirst
      cases answer with
      | error err => exact .stopped h hfound hopen hfirst
      | ok counts' =>
        refine .next h hfound hopen hfirst (ih (hfirst.valid h) _ hnd.2 fun e' he' => ?_)
        have hne : e'.id ≠ e.id := fun hid => hnd.1 (List.mem_map.2 ⟨e', he', hid⟩)
        rw [hfirst.get?_of_ne hne]
        exact hrows e' (List.mem_cons_of_mem _ he')

/-- What comes of a recovery. -/
inductive Recovers (d : Dispatcher σ) :
    Except DispatchError RecoveryReport → Dispatcher σ → Prop
  | refused {err : LedgerError} {s : σ} (ignores : Ignores d.ledger s) :
      Recovers d (.error (.ledger err)) { d with ledger := s }
  | stopped {es : List Expression} {s : σ} {err : DispatchError} {d' : Dispatcher σ}
      (ignores : Ignores d.ledger s)
      (each : RecoversEach { d with ledger := s } {} es (.error err) d') :
      Recovers d (.error err) d'
  | recovered {es : List Expression} {s : σ} {counts : RecoveryReport} {d' : Dispatcher σ}
      (ignores : Ignores d.ledger s)
      (all : ∀ e, e ∈ es ↔ Ledger.get? e.id d.ledger = some e ∧ e.isFinished = false)
      (each : RecoversEach { d with ledger := s } {} es (.ok counts) d')
      (listed : Ledger.unfinished d.ledger = (.ok es, s)) :
      Recovers d (.ok counts) { d' with metrics := d'.metrics.recordRecovery counts.replayed }

theorem Recovers.valid {answer : Except DispatchError RecoveryReport}
    (h : Recovers d answer d') : LawfulLedger.Valid d'.ledger := by
  cases h with
  | refused ignores => exact ignores.valid
  | stopped ignores each => exact each.valid ignores.valid
  | recovered ignores all each listed => exact each.valid ignores.valid

theorem recovers (h : LawfulLedger.Valid d.ledger) : Recovers d d.recover.1 d.recover.2 := by
  rw [recover]
  split
  · next err s hcall =>
    obtain ⟨hvalid, hsame⟩ := LawfulLedger.unfinished_error h hcall
    exact .refused ⟨hvalid, hsame⟩
  · next es s hcall =>
    obtain ⟨hvalid, hsame, hnodup, hmem⟩ := LawfulLedger.unfinished_ok h hcall
    have heach := recoversEach (d := { d with ledger := s }) hvalid {} hnodup fun e he => by
      obtain ⟨hfound, hopen⟩ := (hmem e).1 he
      exact ⟨(hsame e.id).trans hfound, hopen⟩
    cases hes : recoverEach { d with ledger := s } {} es with
    | mk answer d' =>
      rw [hes] at heach
      cases answer with
      | error err => exact .stopped ⟨hvalid, hsame⟩ heach
      | ok counts => exact .recovered ⟨hvalid, hsame⟩ hmem heach hcall

/-! ## 6. What the changes keep -/

/-- A row that is set while its expression has no tasks: that of a submission, or that of an
unfinished expression that ends as it is taken up, since its formula is a constant or its
text is no formula. -/
inductive RowWithoutTasks (s : σ) (id : Int) : Expression → Prop
  | submitted {sub : Submission} (fresh : Ledger.get? id s = none) :
      RowWithoutTasks s id (sub.row id)
  | constant {row : Expression} {plan : Plan} {value : Number}
      (found : Ledger.get? id s = some row) (isOpen : row.isFinished = false)
      (formula : Plan.ofFormula row.text = .ok plan) (constant : plan.constant? = some value) :
      RowWithoutTasks s id (row.endedWith (LawfulLedger.keep σ) (.done value))
  | rejected {row : Expression} {err : FormulaError}
      (found : Ledger.get? id s = some row) (isOpen : row.isFinished = false)
      (noFormula : Plan.ofFormula row.text = .error err) :
      RowWithoutTasks s id (row.endedWith (LawfulLedger.keep σ) (.failed .zero err.message))

/-- A property that is kept by the changes of which submissions and recoveries are made: a
call that is refused, a row that is set without tasks, the plan of an unfinished row that
comes on the board, and the counts of expressions. Where the property holds, no expression
without a row is live. -/
structure KeptByTakingUp (P : Dispatcher σ → Prop) : Prop where
  ignores {d : Dispatcher σ} {s : σ} : P d → Ignores d.ledger s → P { d with ledger := s }
  sets {d : Dispatcher σ} {id : Int} {row : Expression} {s : σ} : P d →
    RowWithoutTasks d.ledger id row → Sets id row d.ledger s → d.board.isLive id = false →
    P { d with ledger := s }
  addPlan {d : Dispatcher σ} {id : Int} {row : Expression} {plan : Plan} : P d →
    d.board.isLive id = false → Ledger.get? id d.ledger = some row → row.isFinished = false →
    Plan.ofFormula row.text = .ok plan → P { d with board := d.board.addPlan id plan d.timings }
  recordEnd {d : Dispatcher σ} (o : Outcome) : P d → P { d with metrics := d.metrics.recordEnd o }
  recordSubmission {d : Dispatcher σ} : P d → P { d with metrics := d.metrics.recordSubmission }
  recordRecovery {d : Dispatcher σ} (n : Nat) : P d →
    P { d with metrics := d.metrics.recordRecovery n }
  isLive_of_fresh {d : Dispatcher σ} {id : Int} : P d → Ledger.get? id d.ledger = none →
    d.board.isLive id = false

/-- A property that is also kept by what a report does to the board, whatever is counted, and
by any row that is set for an expression that has left the board. -/
structure KeptByChanges (P : Dispatcher σ → Prop) : Prop extends KeptByTakingUp P where
  progressed {d : Dispatcher σ} {r : Report} {unblocked : Option Int} {b : Board}
    (counts : Metrics) : P d → d.board.complete r = .ok (.progressed unblocked, b) →
    P { d with board := b, metrics := counts }
  ended {d : Dispatcher σ} {r : Report} {e : Int} {o : Outcome} {b : Board} (counts : Metrics) :
    P d → d.board.complete r = .ok (.finished e o, b) →
    P { d with board := b.evict e, metrics := counts }
  setsEnded {d : Dispatcher σ} {id : Int} {row : Expression} {s : σ} : P d →
    Sets id row d.ledger s → d.board.isLive id = false → P { d with ledger := s }

variable {P : Dispatcher σ → Prop}

theorem Enqueues.keeps {id : Int} {plan : Plan} {answer : Except DispatchError Unit}
    (henqueues : Enqueues d id plan answer d') (hP : KeptByTakingUp P) (h : P d)
    (hlive : d.board.isLive id = false) {row : Expression}
    (hrow : Ledger.get? id d.ledger = some row) (hopen : row.isFinished = false)
    (hplan : Plan.ofFormula row.text = .ok plan) : P d' := by
  cases henqueues with
  | ended constant found sets =>
    cases hrow.symm.trans found
    exact hP.recordEnd _ (hP.sets h (.constant hrow hopen hplan constant) sets hlive)
  | refused constant ignores => exact hP.ignores h ignores
  | admitted operator => exact hP.addPlan h hlive hrow hopen hplan

/-- A new row belongs to no live expression, so that its formula can be taken up. -/
theorem Enqueues.keeps_new {id : Int} {sub : Submission} {s : σ} {plan : Plan}
    {answer : Except DispatchError Unit}
    (henqueues : Enqueues { d with ledger := s } id plan answer d') (hP : KeptByTakingUp P)
    (h : P d) (hfresh : Ledger.get? id d.ledger = none)
    (hsets : Sets id (sub.row id) d.ledger s) (hplan : Plan.ofFormula sub.text = .ok plan) :
    P d' := by
  have hlive := hP.isLive_of_fresh h hfresh
  exact henqueues.keeps hP (hP.sets h (.submitted hfresh) hsets hlive) hlive hsets.get?_self rfl
    hplan

theorem Submits.keeps {text : String} {owner : Int} {answer : Except DispatchError Int}
    (hsubmits : Submits d text owner answer d') (hP : KeptByTakingUp P) (h : P d) : P d' := by
  cases hsubmits with
  | rejected noFormula => exact h
  | refused formula ignores => exact hP.ignores h ignores
  | unrecorded formula fresh sets enqueues => exact enqueues.keeps_new hP h fresh sets formula
  | taken formula fresh sets enqueues =>
    exact hP.recordSubmission (enqueues.keeps_new hP h fresh sets formula)

theorem RecoversOne.keeps {counts : RecoveryReport} {e : Expression}
    {answer : Except DispatchError RecoveryReport} (hrecovers : RecoversOne d counts e answer d')
    (hP : KeptByTakingUp P) (h : P d) (hfound : Ledger.get? e.id d.ledger = some e)
    (hopen : e.isFinished = false) : P d' := by
  cases hrecovers with
  | skipped live => exact h
  | replayed notLive formula enqueues => exact enqueues.keeps hP h notLive hfound hopen formula
  | unrecorded notLive formula enqueues => exact enqueues.keeps hP h notLive hfound hopen formula
  | rejected notLive noFormula found sets =>
    cases hfound.symm.trans found
    exact hP.sets h (.rejected hfound hopen noFormula) sets notLive
  | refused notLive noFormula ignores => exact hP.ignores h ignores

theorem RecoversEach.keeps {counts : RecoveryReport} {es : List Expression}
    {answer : Except DispatchError RecoveryReport}
    (hrecovers : RecoversEach d counts es answer d') (hP : KeptByTakingUp P) (h : P d) : P d' := by
  induction hrecovers with
  | done => exact h
  | stopped valid found isOpen first => exact first.keeps hP h found isOpen
  | next valid found isOpen first rest ih => exact ih (first.keeps hP h found isOpen)

theorem Recovers.keeps {answer : Except DispatchError RecoveryReport}
    (hrecovers : Recovers d answer d') (hP : KeptByTakingUp P) (h : P d) : P d' := by
  cases hrecovers with
  | refused ignores => exact hP.ignores h ignores
  | stopped ignores each => exact each.keeps hP (hP.ignores h ignores)
  | recovered ignores all each listed =>
    exact hP.recordRecovery _ (each.keeps hP (hP.ignores h ignores))

theorem Reports.keeps {r : Report} {answer : Except DispatchError Unit}
    (hreports : Reports d r answer d') (hP : KeptByChanges P) (h : P d) : P d' := by
  cases hreports with
  | rejected rejects => exact h
  | progressed completes => exact hP.progressed _ h completes
  | @ended e o b answer s completes finishes =>
    have hended := hP.ended (countsAtEnd d r b e o) h completes
    have hlive := Board.isLive_evict_self b e
    cases finishes with
    | recorded found sets => exact hP.setsEnded hended sets hlive
    | refused ignores => exact hP.ignores hended ignores

end Dispatcher

end Reckoner
