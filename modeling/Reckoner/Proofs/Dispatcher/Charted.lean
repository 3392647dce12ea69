/-
Reckoner.Proofs.Dispatcher.Charted — live expressions follow the plans of their rows.

`Charted` adds one thing to `InStep`: the row of a live expression has the text of
a formula, and the tasks of the expression follow its plan. It is kept whatever is
asked, whichever values are reported and whichever calls are refused, and a restart
leaves no expression live.

  1. The invariant
  2. Changes of the ledger
  3. Changes of the board
  4. Operations
  5. Every run
-/
import Reckoner.Proofs.Dispatcher.History
import Reckoner.Proofs.Task.Following

namespace Reckoner

variable {σ : Type} [Ledger σ] [LawfulLedger σ]

/-! ## 1. The invariant -/

/-- A board and a ledger are in step, and each live expression follows the plan of
the formula in its row. -/
structure Charted (b : Board) (s : σ) (out : List Task) : Prop where
  inStep : InStep b s out
  followed : ∀ e, b.isLive e = true → ∃ (row : Expression) (tree : Tree) (first : Int),
    OpenRow s e row tree ∧ Follows e tree.plan first b.tasks.values

namespace Charted

variable {s s' : σ} {b b' : Board} {out out' : List Task}

theorem coherent (h : Charted b s out) : b.Coherent := h.inStep.coherent

theorem start (h : LawfulLedger.Valid s) : Charted .empty s [] where
  inStep := .start h
  followed _ he := nomatch he

/-! ## 2. Changes of the ledger -/

/-- The rows of the live expressions stay open and keep their text. -/
theorem of_rows (h : Charted b s out) (hstep : InStep b s' out)
    (hrows : ∀ e row tree, b.isLive e = true → OpenRow s e row tree →
      ∃ row', OpenRow s' e row' tree) : Charted b s' out where
  inStep := hstep
  followed e he := by
    obtain ⟨row, tree, first, hrow, hfollows⟩ := h.followed e he
    obtain ⟨row', hrow'⟩ := hrows e row tree he hrow
    exact ⟨row', tree, first, hrow', hfollows⟩

theorem ignores (h : Charted b s out) (hignores : Ledger.Ignores s s') : Charted b s' out :=
  h.of_rows (h.inStep.ignores hignores) fun e row _ _ hrow =>
    ⟨row, { hrow with recorded := (hignores.same e).trans hrow.recorded }⟩

/-- The row of an expression that is not live may change in any way. -/
theorem sets_of_not_live (h : Charted b s out) {id : Int} {row : Expression}
    (hsets : Ledger.Sets id row s s') (hlive : b.isLive id = false) : Charted b s' out := by
  refine h.of_rows (h.inStep.sets_of_not_live hsets hlive) fun e old tree he hold => ?_
  have hne : e ≠ id := by
    rintro rfl
    rw [hlive] at he
    cases he
  exact ⟨old, { hold with recorded := (hsets.get?_of_ne hne).trans hold.recorded }⟩

/-- A row that starts keeps its text, and does not end. -/
theorem started (h : Charted b s out) {id : Int} {row : Expression}
    (hfound : Ledger.get? id s = some row) (hsets : Ledger.Sets id row.started s s')
    (hstep : InStep b s' out) : Charted b s' out := by
  refine h.of_rows hstep fun e old tree _ hold => ?_
  by_cases hid : e = id
  · subst hid
    have hsame := hold.recorded
    rw [hfound] at hsame
    cases hsame
    exact ⟨row.started, hsets.get?_self, by rw [row.isFinished_started, hold.isOpen],
      by rw [row.text_started, hold.plan], hold.numeric⟩
  · exact ⟨old, { hold with recorded := (hsets.get?_of_ne hid).trans hold.recorded }⟩

/-! ## 3. Changes of the board -/

/-- The live expressions were live before, and go on following their plans. -/
theorem of_board (h : Charted b s out) (hstep : InStep b' s out')
    (hlive : ∀ e, b'.isLive e = true → b.isLive e = true)
    (hfollows : ∀ e plan first, b'.isLive e = true → Follows e plan first b.tasks.values →
      Follows e plan first b'.tasks.values) : Charted b' s out' where
  inStep := hstep
  followed e he := by
    obtain ⟨row, tree, first, hrow, hf⟩ := h.followed e (hlive e he)
    exact ⟨row, tree, first, hrow, hfollows e _ first he hf⟩

theorem addPlan (h : Charted b s out) {e : Int} {row : Expression} {tree : Tree}
    {tokens : List String} {timings : Timings} (hlive : b.isLive e = false)
    (hrow : OpenRow s e row tree) (htokens : Plan.ofTokens tokens = .ok tree.plan) :
    Charted (b.addPlan e tree.plan timings) s out where
  inStep := h.inStep.addPlan hlive hrow.recorded hrow.isOpen htokens
  followed e' he' := by
    have hl := Board.linked_tasksFor htokens b e timings
    rw [h.coherent.values_addPlan hl]
    by_cases hid : e' = e
    · subst hid
      refine ⟨row, tree, b.nextId, hrow, (Follows.of_tasks e' b.nextId tree.plan timings).congr
        fun t ht => ?_⟩
      rw [List.mem_append]
      refine ⟨fun hmem => hmem.resolve_left fun hmem => ?_, .inr⟩
      have hlive' := h.coherent.isLive_of_get? ((Board.mem_tasks_iff h.coherent).1 hmem)
      rw [ht, hlive] at hlive'
      cases hlive'
    · have hold := ((b.isLive_addPlan _ _ _ _).1 he').resolve_left fun hnew => hid hnew.2
      obtain ⟨row', tree', first, hrow', hfollows⟩ := h.followed e' hold
      refine ⟨row', tree', first, hrow', hfollows.congr fun t ht => ?_⟩
      rw [List.mem_append]
      exact ⟨fun hmem => hmem.resolve_right fun hmem => hid (ht.symm.trans (hl.owner t hmem)), .inl⟩

theorem handOut (h : Charted b s out) {t : Task} (hpeek : b.peek? = some t)
    (hstep : InStep (b.handOut t.id t) s out') : Charted (b.handOut t.id t) s out' := by
  have hget := Board.get?_of_peek? h.coherent hpeek
  refine h.of_board hstep (fun e he => he) fun e plan first _ hfollows => ?_
  rw [Board.values_handOut h.coherent hget]
  refine hfollows.handOut fun u hu hid => ?_
  rw [Board.eq_of_id_eq h.coherent hget hu hid, Board.status_of_peek? h.coherent hpeek]
  exact nofun

theorem progressed (h : Charted b s out) {r : Report} {unblocked : Option Int}
    (hcomplete : b.complete r = .ok (.progressed unblocked, b')) : Charted b' s out := by
  obtain ⟨t, ht, hs, hc⟩ := Board.completes_of_complete hcomplete
  have hvalues : b'.tasks.values = b.tasks.values.map (Board.afterValue r) := by
    cases hc with
    | progressed isValue some_left => exact Board.values_afterValue h.coherent ht hs
  have hstep := h.inStep.progressed hcomplete
  refine h.of_board hstep (fun e he => ?_) fun e plan first _ hfollows => ?_
  · rw [Board.isLive_iff_exists_mem hstep.coherent, hvalues] at he
    obtain ⟨u, hu, hue⟩ := he
    obtain ⟨v, hv, rfl⟩ := List.mem_map.1 hu
    exact (Board.isLive_iff_exists_mem h.coherent e).2
      ⟨v, hv, (Board.expressionId_afterValue r v).symm.trans hue⟩
  · rw [hvalues]
    by_cases hid : t.expressionId = e
    · refine hfollows.afterValue (Board.mem_tasks_of_get? h.coherent ht)
        (h.coherent.id_eq r.id t ht) hid fun u hu huid => ?_
      rw [Board.eq_of_id_eq h.coherent ht hu huid, hs]
      exact nofun
    · exact hfollows.congr fun u hu =>
        Board.mem_map_afterValue h.coherent ht fun heq => hid (heq.symm.trans hu)

theorem ended (h : Charted b s out) {r : Report} {e : Int} {o : Outcome}
    (hcomplete : b.complete r = .ok (.finished e o, b')) : Charted (b'.evict e) s out := by
  obtain ⟨t, ht, hs, hc⟩ := Board.completes_of_complete hcomplete
  obtain rfl := hc.owner_of_finished
  have hvalues := Board.values_evict_of_completes h.coherent ht hs hc rfl
  have hstep := h.inStep.ended hcomplete
  refine h.of_board hstep (fun e he => ?_) fun e plan first he hfollows => ?_
  · rw [Board.isLive_iff_exists_mem hstep.coherent, hvalues] at he
    obtain ⟨u, hu, hue⟩ := he
    exact (Board.isLive_iff_exists_mem h.coherent e).2 ⟨u, (List.mem_filter.1 hu).1, hue⟩
  · rw [Board.isLive_evict, Bool.and_eq_true, bne_iff_ne] at he
    rw [hvalues]
    refine hfollows.congr fun u hu => ?_
    rw [List.mem_filter, bne_iff_ne]
    exact ⟨And.left, fun hmem => ⟨hmem, fun heq => he.1 (hu.symm.trans heq)⟩⟩

/-! ## 4. Operations -/

variable {d d' : Dispatcher σ}

theorem keptByChanges (out : List Task) :
    Dispatcher.KeptByChanges fun d : Dispatcher σ => Charted d.board d.ledger out where
  ignores h := h.ignores
  sets h _ := h.sets_of_not_live
  addPlan h hlive hrow hopen hplan := by
    obtain ⟨tree, tokens, htree, rfl, htokens⟩ := Plan.exists_tree_of_ofFormula hplan
    exact h.addPlan hlive ⟨hrow, hopen, hplan, htree⟩ htokens
  recordEnd _ h := h
  recordSubmission h := h
  recordRecovery _ h := h
  isLive_of_fresh h := h.inStep.isLive_of_fresh
  progressed _ h := h.progressed
  ended _ h := h.ended
  setsEnded h := h.sets_of_not_live

theorem claim (h : Charted d.board d.ledger out) {answer : Except DispatchError Task}
    (hclaims : Dispatcher.Claims d answer d') (hstep : InStep d'.board d'.ledger out') :
    Charted d'.board d'.ledger out' := by
  cases hclaims with
  | idle nothing => exact ⟨hstep, h.followed⟩
  | refused next ignores => exact ⟨hstep, (h.ignores ignores).followed⟩
  | handedOut next found sets =>
    have hstarted := h.inStep.starts (h.inStep.covers_of_peek? next found) sets
    exact (h.started found sets hstarted).handOut next hstep

end Charted

/-! ## 5. Every run -/

namespace Session

variable {before : σ} {timings : Timings}

/-- The board, the ledger and the tasks handed out of a session. -/
def IsCharted (s : Session σ) : Prop := Charted s.dispatcher.board s.dispatcher.ledger s.handedOut

theorem isCharted_step {s : Session σ} (h : s.IsCharted) (q : Request) : (s.step q).IsCharted := by
  cases q with
  | submit text owner =>
    exact (Dispatcher.submits h.inStep.valid text owner).keeps
      (Charted.keptByChanges _).toKeptByTakingUp h
  | claim => exact Charted.claim h (claims h.inStep) (isInStep_step h.inStep .claim)
  | report r => exact (reports h.inStep r).keeps (Charted.keptByChanges _) h
  | recover =>
    exact (Dispatcher.recovers h.inStep.valid).keeps (Charted.keptByChanges _).toKeptByTakingUp h

theorem isCharted_next {s : Session σ} (h : s.IsCharted) (ev : Event) : (s.next ev).IsCharted := by
  cases ev with
  | restart => exact .start h.inStep.valid
  | request q => exact isCharted_step h q

theorem isCharted_start (hvalid : LawfulLedger.Valid before) :
    (start timings before).IsCharted := .start hvalid

theorem isCharted_run {s : Session σ} (h : s.IsCharted) (es : List Event) :
    (s.run es).IsCharted := by
  induction es generalizing s with
  | nil => exact h
  | cons ev es ih => exact ih (isCharted_next h ev)

theorem isCharted_serve {s : Session σ} (h : s.IsCharted) (qs : List Request) :
    (s.serve qs).IsCharted := by
  induction qs generalizing s with
  | nil => exact h
  | cons q qs ih => exact ih (isCharted_step h q)

end Session

end Reckoner
