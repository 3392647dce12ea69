/-
Reckoner.Proofs.Dispatcher.Willing — a ledger that takes every call gets everything done.

What a dispatcher asks of its ledger can only fail where the ledger refuses. So over
ledgers of a kind that takes the calls of a recovery (`Ledger.TakesCalls`), a formula
is always taken up and a recovery always succeeds. Expressions in memory and the
database are of such a kind, and so is a ledger none of whose calls is to be refused.

  1. Ledgers that take every call
  2. Taking up an expression
  3. Recovering
-/
import Reckoner.Proofs.Dispatcher.Effect
import Reckoner.Proofs.Formula.Value

namespace Reckoner

/-! ## 1. Ledgers that take every call -/

section TakesCalls

variable {σ : Type} [Ledger σ] [LawfulLedger σ]

/-- The ledgers of a kind take the calls of a recovery, and are of that kind afterwards. -/
structure Ledger.TakesCalls (W : σ → Prop) : Prop where
  unfinished {s : σ} : LawfulLedger.Valid s → W s →
    ∃ es s', Ledger.unfinished s = (.ok es, s') ∧ W s'
  finish {s : σ} {id : Int} {row : Expression} {o : Outcome} : LawfulLedger.Valid s → W s →
    Ledger.get? id s = some row → o.result.isFinite = true →
    ∃ s', Ledger.finish id o s = (.ok (), s') ∧ W s'

end TakesCalls

/-- A ledger that takes the calls of a recovery, however it stands. -/
class WillingLedger (σ : Type) [Ledger σ] [LawfulLedger σ] : Prop where
  takesCalls : Ledger.TakesCalls fun _ : σ => True

instance : WillingLedger MemoryLedger where
  takesCalls := {
    unfinished := fun _ _ => ⟨_, _, rfl, trivial⟩
    finish := fun {s id row o} _ _ hrow _ => by
      have hget : s.rows.get? id = some row := hrow
      have hchange := MemoryLedger.change_eq id (fun e => e.ended o) s
      rw [hget] at hchange
      exact ⟨_, hchange, trivial⟩ }

instance : WillingLedger Database where
  takesCalls := {
    unfinished := fun _ _ => ⟨_, _, rfl, trivial⟩
    finish := fun hvalid _ hrow ho =>
      ⟨_, Prod.ext (Database.finish_answer hvalid hrow ho) rfl, trivial⟩ }

namespace FaultyLedger

variable {τ : Type}

/-- No call is to be refused. -/
def Unrefusing (f : FaultyLedger τ) : Prop := ∀ call, f.refusals call = []

/-- The ledger once no more of its calls are refused. -/
def withoutRefusals (f : FaultyLedger τ) : FaultyLedger τ := ofLedger f.ledger f.reason

theorem unrefusing_withoutRefusals (f : FaultyLedger τ) : f.withoutRefusals.Unrefusing :=
  fun _ => rfl

theorem Unrefusing.attempt {α : Type} {f : FaultyLedger τ} (h : f.Unrefusing) (call : LedgerCall)
    (action : τ → Except LedgerError α × τ) :
    f.attempt call action = ((action f.ledger).1, { f with ledger := (action f.ledger).2 }) := by
  have hrefusals : (fun c => if c = call then [] else f.refusals c) = f.refusals := by
    funext c
    split
    · exact (h c).symm
    · rfl
  simp [FaultyLedger.attempt, withRefusals, h call, hrefusals]

theorem takesCalls_unrefusing [Ledger τ] [LawfulLedger τ] [WillingLedger τ] :
    Ledger.TakesCalls (Unrefusing (τ := τ)) where
  unfinished {f} hvalid h := by
    obtain ⟨es, s, hcall, -⟩ := WillingLedger.takesCalls.unfinished (s := f.ledger) hvalid trivial
    refine ⟨es, { f with ledger := s }, ?_, h⟩
    show f.attempt .unfinished Ledger.unfinished = _
    rw [h.attempt, hcall]
  finish {f id row o} hvalid h hrow ho := by
    obtain ⟨s, hcall, -⟩ := WillingLedger.takesCalls.finish (s := f.ledger) hvalid trivial hrow ho
    refine ⟨{ f with ledger := s }, ?_, h⟩
    show f.attempt .finish (Ledger.finish id o) = _
    rw [h.attempt, hcall]

end FaultyLedger

namespace Dispatcher

variable {σ : Type} [Ledger σ] [LawfulLedger σ] {W : σ → Prop} {d : Dispatcher σ}

/-! ## 2. Taking up an expression -/

theorem enqueue_of_takesCalls (hW : Ledger.TakesCalls W) (hvalid : LawfulLedger.Valid d.ledger)
    (hd : W d.ledger) {id : Int} {row : Expression} (hrow : Ledger.get? id d.ledger = some row)
    {text : String} {plan : Plan} (hplan : Plan.ofFormula text = .ok plan) :
    ∃ d', d.enqueue id plan = (.ok (), d') ∧ W d'.ledger := by
  rw [enqueue]
  cases hconstant : plan.constant? with
  | none => exact ⟨_, rfl, hd⟩
  | some value =>
    have hfinite : (Outcome.done value).result.isFinite = true :=
      Plan.isFinite_of_constant hplan hconstant
    obtain ⟨s, hcall, hs⟩ := hW.finish hvalid hd hrow hfinite
    simp only [hcall]
    exact ⟨_, rfl, hs⟩

theorem recoverOne_of_takesCalls (hW : Ledger.TakesCalls W) (hvalid : LawfulLedger.Valid d.ledger)
    (hd : W d.ledger) (counts : RecoveryReport) {e : Expression}
    (hrow : Ledger.get? e.id d.ledger = some e) :
    ∃ counts' d', d.recoverOne counts e = (.ok counts', d') ∧ W d'.ledger := by
  rw [recoverOne]
  split
  · exact ⟨_, _, rfl, hd⟩
  · split
    · next plan hplan =>
      obtain ⟨d', hcall, hd'⟩ := enqueue_of_takesCalls hW hvalid hd hrow hplan
      simp only [hcall]
      exact ⟨_, _, rfl, hd'⟩
    · next err _ =>
      have hfinite : (Outcome.failed .zero err.message).result.isFinite = true := rfl
      obtain ⟨s, hcall, hs⟩ := hW.finish hvalid hd hrow hfinite
      simp only [hcall]
      exact ⟨_, _, rfl, hs⟩

/-! ## 3. Recovering -/

theorem recoverEach_of_takesCalls (hW : Ledger.TakesCalls W)
    (hvalid : LawfulLedger.Valid d.ledger) (hd : W d.ledger) (counts : RecoveryReport)
    {es : List Expression} (hnodup : (es.map (·.id)).Nodup)
    (hrows : ∀ e ∈ es, Ledger.get? e.id d.ledger = some e) :
    ∃ counts' d', d.recoverEach counts es = (.ok counts', d') := by
  induction es generalizing d counts with
  | nil => exact ⟨_, _, rfl⟩
  | cons e es ih =>
    obtain ⟨hout, hnodup⟩ := List.nodup_cons.1 hnodup
    obtain ⟨counts', d', hcall, hd'⟩ :=
      recoverOne_of_takesCalls hW hvalid hd counts (hrows e List.mem_cons_self)
    have hfirst := recoversOne hvalid counts e
    rw [hcall] at hfirst
    rw [recoverEach, hcall]
    refine ih (hfirst.valid hvalid) hd' counts' hnodup fun f hf => ?_
    have hne : f.id ≠ e.id := fun hid => hout (List.mem_map.2 ⟨f, hf, hid⟩)
    rw [hfirst.get?_of_ne hne]
    exact hrows f (List.mem_cons_of_mem _ hf)

theorem recover_of_takesCalls (hW : Ledger.TakesCalls W) (hvalid : LawfulLedger.Valid d.ledger)
    (hd : W d.ledger) : ∃ counts d', d.recover = (.ok counts, d') := by
  obtain ⟨es, s, hcall, hs⟩ := hW.unfinished hvalid hd
  obtain ⟨hvalid', hsame, hnodup, hmem⟩ := LawfulLedger.unfinished_ok hvalid hcall
  obtain ⟨counts, d', heach⟩ := recoverEach_of_takesCalls (d := { d with ledger := s }) hW hvalid'
    hs {} hnodup fun e he => (hsame e.id).trans ((hmem e).1 he).1
  rw [recover, hcall]
  simp only [heach]
  exact ⟨_, _, rfl⟩

end Dispatcher

end Reckoner
