/-
Reckoner.Proofs.Dispatcher.Session — what any run of a dispatcher comes to.

In a session, users hand in formulas and workers ask for tasks and report on
them, in any order, while the dispatcher may recover at any time. Nothing is
asked of the reports but that a report on a task that was handed out says what
`Task.execute` makes of it: it may come late, come twice, or never come, and
there may be reports on tasks that were never handed out.

Then the row of every expression that ends in the session says what its formula
is worth (`settled_of_reaches`). This holds over any lawful ledger, also where
some of its calls are refused.

  1. Sessions
  2. Submitting and recovering
  3. Claims and reports
  4. Every session
-/
import Reckoner.Proofs.Dispatcher.Sound

namespace Reckoner

variable {σ : Type} [Ledger σ]

/-! ## 1. Sessions -/

/-- What users and workers ask of a dispatcher. -/
inductive Request where
  | submit (text : String) (owner : Int)
  | claim
  | report (r : Report)
  | recover

/-- A dispatcher, and every task as it has been handed out. -/
structure Session (σ : Type) where
  dispatcher : Dispatcher σ
  handedOut : List Task

namespace Session

/-- The session of a new dispatcher over a ledger. -/
def start (timings : Timings) (ledger : σ) : Session σ := ⟨.start timings ledger, []⟩

/-- The session after one more request, whatever the answer to it. -/
def step (s : Session σ) : Request → Session σ
  | .submit text owner => ⟨(s.dispatcher.submit text owner).2, s.handedOut⟩
  | .claim =>
    match s.dispatcher.claim with
    | (.ok t, d) => ⟨d, t :: s.handedOut⟩
    | (.error _, d) => ⟨d, s.handedOut⟩
  | .report r => ⟨(s.dispatcher.report r).2, s.handedOut⟩
  | .recover => ⟨s.dispatcher.recover.2, s.handedOut⟩

/-- A report on a task that was handed out says what became of it. -/
def Honest (s : Session σ) : Request → Prop
  | .report r => ∀ t ∈ s.handedOut, t.id = r.id → r = t.execute
  | _ => True

/-- Sessions that honest requests lead to. -/
inductive Reaches (first : Session σ) : Session σ → Prop
  | refl : Reaches first first
  | step {s : Session σ} {q : Request} : Reaches first s → s.Honest q → Reaches first (s.step q)

end Session

/-! ## 2. Submitting and recovering -/

variable [LawfulLedger σ]

namespace Sound

variable {before : σ} {d d' : Dispatcher σ} {out : List Task}

theorem keptByTakingUp (before : σ) (out : List Task) :
    Dispatcher.KeptByTakingUp fun d : Dispatcher σ => Sound before d.board d.ledger out where
  ignores h := h.ignores
  sets h hrow hsets hlive := h.sets_of_not_live hsets hlive (accounted_of_rowWithoutTasks hrow)
  addPlan h hlive hrow hopen hplan := by
    obtain ⟨tree, tokens, htree, rfl, htokens⟩ := Plan.exists_tree_of_ofFormula hplan
    exact h.addPlan hlive ⟨hrow, hopen, hplan, htree⟩ htokens
  recordEnd _ h := h
  recordSubmission h := h
  recordRecovery _ h := h
  isLive_of_fresh h := h.isLive_of_fresh

/-! ## 3. Claims and reports -/

/-- A row that is started keeps its text, and it has ended only if it had before. -/
theorem started (h : Sound before d.board d.ledger out) {id : Int} {row : Expression} {s : σ}
    (hrow : Ledger.get? id d.ledger = some row) (hsets : Ledger.Sets id row.started d.ledger s) :
    Sound before d.board s out := by
  refine h.sets hsets (fun hlive => ?_) fun hfinished => ?_
  · obtain ⟨row', tree, first, hopenRow, -⟩ := h.backed id hlive
    cases hrow.symm.trans hopenRow.recorded
    refine ⟨by rw [row.isFinished_started, hopenRow.isOpen], fun row' hrow' => ?_⟩
    cases hrow.symm.trans hrow'
    exact row.text_started
  · rw [row.isFinished_started] at hfinished
    rw [Expression.started_of_finished hfinished]
    exact h.accounted id row hrow hfinished

/-- A claim hands out a task, or changes no row and no task. -/
theorem claim (h : Sound before d.board d.ledger out) {answer : Except DispatchError Task}
    (hclaims : Dispatcher.Claims d answer d') :
    match answer with
    | .ok t => Sound before d'.board d'.ledger (t :: out)
    | .error _ => Sound before d'.board d'.ledger out := by
  cases hclaims with
  | idle nothing => exact h
  | refused next ignores => exact h.ignores ignores
  | handedOut next found sets => exact (h.started found sets).handOut next

theorem report (h : Sound before d.board d.ledger out) {r : Report}
    (honest : ∀ t ∈ out, t.id = r.id → r = t.execute) {answer : Except DispatchError Unit}
    (hreports : Dispatcher.Reports d r answer d') : Sound before d'.board d'.ledger out := by
  cases hreports with
  | rejected rejects => exact h
  | progressed completes => exact h.progressed honest completes
  | @ended e o b answer s completes finishes =>
    obtain ⟨hevicted, haccounted⟩ := h.finished honest completes
    have hlive := Board.isLive_evict_self b e
    cases finishes with
    | recorded found sets =>
      exact hevicted.sets_of_not_live sets hlive fun _ => haccounted _ found
    | refused ignores => exact hevicted.ignores ignores

end Sound

/-! ## 4. Every session -/

namespace Session

variable {before : σ} {timings : Timings}

theorem sound_start (hvalid : LawfulLedger.Valid before) :
    Sound before (start timings before).dispatcher.board (start timings before).dispatcher.ledger
      (start timings before).handedOut where
  valid := hvalid
  served := .empty
  out _ ht := nomatch ht
  backed _ he := nomatch he
  accounted _ row hrow hfinished := .inl ⟨row, hrow, hfinished⟩

theorem sound_step {s : Session σ} {q : Request}
    (h : Sound before s.dispatcher.board s.dispatcher.ledger s.handedOut) (hq : s.Honest q) :
    Sound before (s.step q).dispatcher.board (s.step q).dispatcher.ledger
      (s.step q).handedOut := by
  cases q with
  | submit text owner =>
    exact (Dispatcher.submits h.valid text owner).keeps (Sound.keptByTakingUp before _) h
  | claim =>
    have hclaims := Dispatcher.claims h.valid h.coherent
    rw [step]
    cases hcall : s.dispatcher.claim with
    | mk answer d =>
      rw [hcall] at hclaims
      have hclaim := h.claim hclaims
      cases answer <;> exact hclaim
  | report r => exact h.report hq (Dispatcher.reports h.valid r)
  | recover => exact (Dispatcher.recovers h.valid).keeps (Sound.keptByTakingUp before _) h

theorem sound_of_reaches {s : Session σ} (hvalid : LawfulLedger.Valid before)
    (h : Reaches (start timings before) s) :
    Sound before s.dispatcher.board s.dispatcher.ledger s.handedOut := by
  induction h with
  | refl => exact sound_start hvalid
  | step _ hq ih => exact sound_step ih hq

/-- Whatever the order of the requests, the row of an expression that has ended in
the session says what the one tree of its plan is worth. A formula without
operators is worth the number it spells. -/
theorem settled_of_reaches {s : Session σ} (hvalid : LawfulLedger.Valid before)
    (h : Reaches (start timings before) s) {id : Int} {row : Expression}
    (hrow : Ledger.get? id s.dispatcher.ledger = some row) (hfinished : row.isFinished = true)
    (hnew : ∀ old, Ledger.get? id before = some old → old.isFinished = false) {plan : Plan}
    (hplan : Plan.ofFormula row.text = .ok plan) :
    ∃ tree : Tree, (∀ t, plan.Unfolds plan.root t ↔ t = tree) ∧
      row.Settled (LawfulLedger.keep σ) tree ∧
      ∀ text, tree = .leaf text → ∃ x, Number.ofText? text = some x ∧
        row.status = .done ∧ row.result = LawfulLedger.keep σ x ∧ row.error = none := by
  obtain ⟨tree, tokens, hnumeric, rfl, -⟩ := Plan.exists_tree_of_ofFormula hplan
  have hsettled : row.Settled (LawfulLedger.keep σ) tree := by
    rcases (sound_of_reaches hvalid h).accounted id row hrow hfinished with
      ⟨old, hold, hended⟩ | hsettled
    · rw [hnew old hold] at hended
      cases hended
    · exact hsettled tree hnumeric hplan
  refine ⟨tree, fun t => ⟨fun ht => ht.unique (Plan.unfolds_plan tree), ?_⟩, hsettled, ?_⟩
  · rintro rfl
    exact Plan.unfolds_plan t
  · rintro text rfl
    obtain ⟨x, hx, -⟩ := hnumeric.exists_ofText?
    have hvalue : (Tree.leaf text).value = .ok x := by rw [Tree.value, hx]
    have hdone := hsettled.done_iff.2 fun _ hs => hnumeric.exists_value_within hvalue hs
    obtain ⟨y, hy, hresult, herror⟩ := hsettled.of_done hdone
    rw [hvalue] at hy
    cases hy
    exact ⟨x, hx, hdone, hresult, herror⟩

theorem settled_difference :
    let claimed := ((start {} ({} : MemoryLedger)).step (.submit "7-2*3" 1)).step .claim
    let multiplied := claimed.step (.report (.success 1 (.ofInt 6)))
    let s := (multiplied.step .claim).step (.report (.success 2 (.ofInt 1)))
    let tree := Tree.node .subtract (.leaf "7") (.node .multiply (.leaf "2") (.leaf "3"))
    ∃ row, Ledger.get? 1 s.dispatcher.ledger = some row ∧ row.Settled id tree := by
  intro claimed multiplied s tree
  have hreaches : Reaches (start {} ({} : MemoryLedger)) s := by
    refine .step (.step (.step (.step (.step .refl trivial) trivial) ?_) trivial) ?_
    all_goals
      show ∀ t ∈ _, _
      decide +kernel
  have hempty : LawfulLedger.Valid ({} : MemoryLedger) := fun _ _ h => nomatch h
  let row : Expression :=
    { id := 1, text := "7-2*3", status := .done, result := .ofInt 1, owner := 1 }
  have hrow : Ledger.get? 1 s.dispatcher.ledger = some row := by decide +kernel
  have hplan : Plan.ofFormula row.text = .ok tree.plan := by decide +kernel
  obtain ⟨tree', hunfolds, hsettled, -⟩ :=
    settled_of_reaches hempty hreaches hrow rfl (fun _ h => nomatch h) hplan
  rw [← (hunfolds tree).1 (Plan.unfolds_plan tree)] at hsettled
  exact ⟨row, hrow, hsettled⟩

end Session

end Reckoner
