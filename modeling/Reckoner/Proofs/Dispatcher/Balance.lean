/-
Reckoner.Proofs.Dispatcher.Balance — the counts of expressions balance.

Every expression that a dispatcher has taken, new or again, is live, done or
failed, and the counts of these are kept in different places: a submission is
counted once its expression has been taken up, a recovery once all of its
expressions have, and an end also where the ledger does not record it. So what has
been counted in is what has been counted out and what is live
(`expressions_balance_iff`), but for recoveries that are stopped by the ledger:
what they had taken up by then is never counted (`Dispatcher.uncounted`), and the
counts are off from then on (`stopped_recovery_uncounted`).

  1. What is counted in, and what is counted out
  2. Taking up an expression
  3. Submitting, handing out and reporting
  4. Recovering
  5. Every run
-/
import Reckoner.Proofs.Board.Load
import Reckoner.Proofs.Dispatcher.CaughtUp
import Reckoner.Proofs.Dispatcher.History

namespace Reckoner

variable {σ : Type}

/-! ## 1. What is counted in, and what is counted out -/

/-- The expressions that were taken, by submissions and by recoveries. -/
def Metrics.countedIn (m : Metrics) : Nat := m.submitted + m.recovered

/-- The expressions that have ended. -/
def Metrics.countedOut (m : Metrics) : Nat := m.done + m.failed

namespace Metrics

variable (m : Metrics)

@[simp] theorem countedIn_recordSubmission : m.recordSubmission.countedIn = m.countedIn + 1 := by
  simp only [recordSubmission, countedIn]
  omega

@[simp] theorem countedIn_recordRecovery (n : Nat) :
    (m.recordRecovery n).countedIn = m.countedIn + n := by
  simp only [recordRecovery, countedIn]
  omega

@[simp] theorem countedIn_recordEnd (o : Outcome) : (m.recordEnd o).countedIn = m.countedIn := by
  cases o <;> rfl

@[simp] theorem countedOut_recordSubmission : m.recordSubmission.countedOut = m.countedOut := rfl

@[simp] theorem countedOut_recordRecovery (n : Nat) :
    (m.recordRecovery n).countedOut = m.countedOut := rfl

@[simp] theorem countedOut_recordEnd (o : Outcome) :
    (m.recordEnd o).countedOut = m.countedOut + 1 := by
  cases o <;> simp only [recordEnd, countedOut] <;> omega

end Metrics

namespace Dispatcher

/-- The expressions that have ended, and those that are live. -/
def accounted (d : Dispatcher σ) : Nat := d.metrics.countedOut + d.board.load.expressions

/-- What has been counted in, and some expressions that have not, are accounted for. -/
def Balances (d : Dispatcher σ) (missed : Nat) : Prop :=
  d.metrics.countedIn + missed = d.accounted

variable [Ledger σ]

/-- How many expressions a recovery has taken up again by the time that it is
through, or that a call of the ledger stops it. -/
def takenUp (d : Dispatcher σ) (counts : RecoveryReport) : List Expression → Nat
  | [] => counts.replayed
  | e :: es =>
    match d.recoverOne counts e with
    | (.error _, _) => counts.replayed
    | (.ok counts, d) => d.takenUp counts es

/-- How many expressions a recovery takes up again without counting them. -/
def uncounted (d : Dispatcher σ) : Nat :=
  match Ledger.unfinished d.ledger with
  | (.error _, _) => 0
  | (.ok es, ledger) =>
    match recoverEach { d with ledger } {} es with
    | (.ok _, _) => 0
    | (.error _, _) => takenUp { d with ledger } {} es

variable [LawfulLedger σ] {d d' : Dispatcher σ}

/-! ## 2. Taking up an expression -/

/-- Whether an expression has been taken up. -/
def tally {ε α : Type} : Except ε α → Nat
  | .ok _ => 1
  | .error _ => 0

namespace Enqueues

variable {id : Int} {plan : Plan} {answer : Except DispatchError Unit}

theorem countedIn (h : Enqueues d id plan answer d') :
    d'.metrics.countedIn = d.metrics.countedIn := by
  cases h with
  | ended constant found sets => exact Metrics.countedIn_recordEnd _ _
  | refused constant ignores => rfl
  | admitted operator => rfl

/-- An expression that is taken up has ended, or it is live. -/
theorem accounted (h : Enqueues d id plan answer d') (hlive : d.board.isLive id = false)
    {text : String} (hplan : Plan.ofFormula text = .ok plan) :
    d'.accounted = d.accounted + tally answer := by
  cases h with
  | @ended value row s constant found sets =>
    simp only [Dispatcher.accounted, Metrics.countedOut_recordEnd, tally]
    omega
  | refused constant ignores => rfl
  | admitted operator =>
    have hone : (d.board.addPlan id plan d.timings).load.expressions = _ :=
      Board.expressions_addPlan hlive (Plan.size_ne_zero hplan operator)
    simp only [Dispatcher.accounted, hone, tally]
    omega

end Enqueues

/-! ## 3. Submitting, handing out and reporting -/

variable {out : List Task} {missed : Nat}

/-- An expression that a submission takes up is counted once, and no other is. -/
theorem Submits.balances {text : String} {owner : Int} {answer : Except DispatchError Int}
    (h : Submits d text owner answer d') (hstep : InStep d.board d.ledger out)
    (hbalances : d.Balances missed) : d'.Balances missed := by
  cases h with
  | rejected noFormula => exact hbalances
  | refused formula ignores => exact hbalances
  | @unrecorded plan id s err d' formula fresh sets enqueues =>
    have hin := enqueues.countedIn
    have hout := enqueues.accounted (hstep.isLive_of_fresh fresh) formula
    rw [Balances, hin, hout]
    exact hbalances
  | @taken plan id s d' formula fresh sets enqueues =>
    have hin := enqueues.countedIn
    have hout := enqueues.accounted (hstep.isLive_of_fresh fresh) formula
    have hsum : d.metrics.countedIn + missed = d.accounted := hbalances
    have hbefore : ({ d with ledger := s } : Dispatcher σ).accounted = d.accounted := rfl
    rw [hbefore, tally] at hout
    show d'.metrics.recordSubmission.countedIn + missed = d'.accounted
    rw [Metrics.countedIn_recordSubmission, hin, hout]
    simp only
    omega

theorem Claims.balances {answer : Except DispatchError Task} (h : Claims d answer d')
    (hbalances : d.Balances missed) : d'.Balances missed := by
  cases h with
  | idle nothing => exact hbalances
  | refused next ignores => exact hbalances
  | handedOut next found sets => exact hbalances

/-- An expression that ends is counted out as it leaves the board. -/
theorem Reports.balances {r : Report} {answer : Except DispatchError Unit}
    (h : Reports d r answer d') (hb : d.board.Coherent) (hbalances : d.Balances missed) :
    d'.Balances missed := by
  cases h with
  | rejected rejects => exact hbalances
  | progressed completes =>
    have hlive := Board.expressions_complete hb completes
    rw [Balances, accounted, hlive]
    exact hbalances
  | @ended e o b answer s completes finishes =>
    have hlive := Board.expressions_ended hb completes
    have hin : (countsAtEnd d r b e o).countedIn = d.metrics.countedIn :=
      Metrics.countedIn_recordEnd _ _
    have hout : (countsAtEnd d r b e o).countedOut = d.metrics.countedOut + 1 :=
      Metrics.countedOut_recordEnd _ _
    have hsum : d.metrics.countedIn + missed = d.accounted := hbalances
    rw [accounted] at hsum
    simp only [Balances, accounted, hin, hout]
    omega

/-! ## 4. Recovering -/

/-- An expression is counted as taken up again exactly if it has been. -/
theorem RecoversOne.accounted {counts counts' : RecoveryReport} {e : Expression}
    (h : RecoversOne d counts e (.ok counts') d') :
    d'.metrics.countedIn = d.metrics.countedIn ∧
      d'.accounted + counts.replayed = d.accounted + counts'.replayed := by
  cases h with
  | skipped live => exact ⟨rfl, rfl⟩
  | rejected notLive noFormula found sets => exact ⟨rfl, rfl⟩
  | replayed notLive formula enqueues =>
    have hout := enqueues.accounted notLive formula
    refine ⟨enqueues.countedIn, ?_⟩
    simp only [hout, tally]
    omega

theorem RecoversOne.accounted_of_error {counts : RecoveryReport} {e : Expression}
    {err : DispatchError} (h : RecoversOne d counts e (.error err) d') :
    d'.metrics.countedIn = d.metrics.countedIn ∧ d'.accounted = d.accounted := by
  obtain ⟨s, -, rfl⟩ := h.ignores_of_error
  exact ⟨rfl, rfl⟩

/-- The expressions that a recovery has taken up are accounted for, one by one. -/
theorem accounted_recoverEach (h : LawfulLedger.Valid d.ledger) (counts : RecoveryReport)
    (es : List Expression) :
    (d.recoverEach counts es).2.metrics.countedIn = d.metrics.countedIn ∧
      (d.recoverEach counts es).2.accounted + counts.replayed =
        d.accounted + d.takenUp counts es := by
  induction es generalizing d counts with
  | nil => exact ⟨rfl, rfl⟩
  | cons e es ih =>
    have hone := recoversOne h counts e
    rw [recoverEach, takenUp]
    cases hcall : d.recoverOne counts e with
    | mk answer d' =>
      rw [hcall] at hone
      cases answer with
      | error err =>
        obtain ⟨hin, hout⟩ := hone.accounted_of_error
        exact ⟨hin, congrArg (· + counts.replayed) hout⟩
      | ok counts' =>
        have hone : RecoversOne d counts e (.ok counts') d' := hone
        obtain ⟨hin, hout⟩ := hone.accounted
        obtain ⟨hinRest, houtRest⟩ := ih (d := d') (hone.valid h) counts'
        refine ⟨hinRest.trans hin, ?_⟩
        show (d'.recoverEach counts' es).2.accounted + _ = d.accounted + d'.takenUp counts' es
        omega

omit [LawfulLedger σ] in
/-- A recovery that goes through counts all that it has taken up. -/
theorem takenUp_of_recoverEach {counts counts' : RecoveryReport} {es : List Expression}
    (h : d.recoverEach counts es = (.ok counts', d')) : d.takenUp counts es = counts'.replayed := by
  induction es generalizing d counts with
  | nil =>
    cases h
    rfl
  | cons e es ih =>
    rw [recoverEach] at h
    rw [takenUp]
    cases hcall : d.recoverOne counts e with
    | mk answer d'' =>
      rw [hcall] at h
      cases answer with
      | error err => cases h
      | ok counts'' => exact ih h

/-- What a recovery takes up without counting it is missed from then on. -/
theorem balances_recover (h : LawfulLedger.Valid d.ledger) (hbalances : d.Balances missed) :
    d.recover.2.Balances (missed + d.uncounted) := by
  have hsum : d.metrics.countedIn + missed = d.accounted := hbalances
  rw [recover, uncounted]
  cases hcall : Ledger.unfinished d.ledger with
  | mk answer s =>
    cases answer with
    | error err => exact hbalances
    | ok es =>
      obtain ⟨hvalid, -⟩ := LawfulLedger.unfinished_ok h hcall
      obtain ⟨hin, hout⟩ := accounted_recoverEach (d := { d with ledger := s }) hvalid {} es
      have hbefore : ({ d with ledger := s } : Dispatcher σ).accounted = d.accounted := rfl
      simp only
      cases heach : recoverEach { d with ledger := s } {} es with
      | mk answer d' =>
        rw [heach, hbefore] at hout
        rw [heach] at hin
        cases answer with
        | error err =>
          show d'.metrics.countedIn + (missed + _) = d'.accounted
          simp only at hin hout ⊢
          omega
        | ok counts =>
          have htaken := takenUp_of_recoverEach heach
          show (d'.metrics.recordRecovery counts.replayed).countedIn + missed = d'.accounted
          rw [Metrics.countedIn_recordRecovery]
          simp only at hin hout
          omega

end Dispatcher

/-! ## 5. Every run -/

namespace Session

open Dispatcher (Balances)

/-- How many expressions a request takes up again without counting them. -/
def misses [Ledger σ] (s : Session σ) : Request → Nat
  | .recover => s.dispatcher.uncounted
  | _ => 0

variable [Ledger σ] [LawfulLedger σ] {before : σ} {timings : Timings} {s : Session σ}

theorem balances_step (h : s.IsInStep) {missed : Nat} (hbalances : s.dispatcher.Balances missed)
    (q : Request) : (s.step q).dispatcher.Balances (missed + s.misses q) := by
  cases q with
  | submit text owner => exact (Dispatcher.submits h.valid text owner).balances h hbalances
  | claim => exact (claims h).balances hbalances
  | report r => exact (reports h r).balances h.coherent hbalances
  | recover => exact Dispatcher.balances_recover h.valid hbalances

/-- Whatever a dispatcher is asked and whichever calls are refused: the expressions
that submissions and recoveries have counted are those that are done, have failed or
are live, but for those that stopped recoveries had taken up. So the counts balance
exactly as long as no recovery is stopped after it has taken up an expression. -/
theorem expressions_balance_iff (hvalid : LawfulLedger.Valid before) (qs : List Request) :
    let d := ((start timings before).serve qs).dispatcher
    let missed := (start timings before).total misses qs
    d.metrics.submitted + d.metrics.recovered + missed =
      d.metrics.done + d.metrics.failed + d.board.load.expressions ∧
    (d.metrics.submitted + d.metrics.recovered =
      d.metrics.done + d.metrics.failed + d.board.load.expressions ↔ missed = 0) := by
  intro d missed
  have hstart : (start timings before).dispatcher.Balances 0 := rfl
  have hbalances : d.Balances (0 + missed) :=
    serve_total (P := fun s n => s.dispatcher.Balances n) (fun h hn q => balances_step h hn q)
      (isInStep_start hvalid) hstart qs
  rw [Nat.zero_add] at hbalances
  have hsum : d.metrics.submitted + d.metrics.recovered + missed =
      d.metrics.done + d.metrics.failed + d.board.load.expressions := hbalances
  exact ⟨hsum, by omega⟩

/-- The end of the first expression is not recorded, so that it is taken up again. -/
theorem expressions_balance_sum :
    let ledger := (FaultyLedger.ofLedger ({} : MemoryLedger) fun _ => "").withRefusals
      .finish [true]
    let requests : List Request := [.submit "1+2" 1, .claim, .report (.success 1 (.ofInt 3)),
      .submit "4*5" 2, .recover]
    let d := ((start {} ledger).serve requests).dispatcher
    d.metrics.submitted = 2 ∧ d.metrics.recovered = 1 ∧ d.metrics.done = 1 ∧
      d.metrics.submitted + d.metrics.recovered =
        d.metrics.done + d.metrics.failed + d.board.load.expressions := by
  intro ledger requests d
  have hempty : LawfulLedger.Valid ledger := fun _ _ h => nomatch h
  have hmissed : (start {} ledger).total misses requests = 0 := by decide +kernel
  have hd : d = ((start {} ledger).serve requests).dispatcher := rfl
  obtain ⟨-, hbalance⟩ := @expressions_balance_iff _ _ _ ledger {} hempty requests
  rw [← hd] at hbalance
  exact ⟨by decide +kernel, by decide +kernel, by decide +kernel, hbalance.2 hmissed⟩

/-- The end of the first expression is not recorded, nor is that of the second, which
is a number. The recovery takes up the first again and is stopped at the second: the
first is live and has been counted out once, but has been counted in only once. -/
theorem stopped_recovery_uncounted :
    let ledger := (FaultyLedger.ofLedger ({} : MemoryLedger) fun _ => "").withRefusals
      .finish [true, true, true]
    let requests : List Request := [.submit "1+2" 1, .claim, .report (.success 1 (.ofInt 3)),
      .submit "5" 1, .recover]
    let d := ((start {} ledger).serve requests).dispatcher
    d.metrics.submitted + d.metrics.recovered ≠
      d.metrics.done + d.metrics.failed + d.board.load.expressions := by
  decide +kernel

end Session

end Reckoner
