/-
Reckoner.Proofs.Dispatcher.Sound — a dispatcher and its ledger stay in step.

`Sound` ties the board to the ledger. A live expression has a row that has not
ended, and its tasks work out the tree of the formula in that row. A row that
has ended since the dispatcher started says what its tree is worth
(`Expression.Settled`). Every change of a row is one `Sound.sets`, and the
board changes in four ways; each operation of a dispatcher is made of these.

  1. What a row says in the end
  2. The invariant
  3. Changes of the ledger
  4. Changes of the board
  5. Reports
-/
import Reckoner.Proofs.Dispatcher.Effect
import Reckoner.Proofs.Task.Working

namespace Reckoner

/-! ## 1. What a row says in the end -/

/-- The row of an ended expression says what its tree is worth: the value if
every subtree has one, and otherwise why some operation has none. -/
structure Expression.Settled (keep : Number → Number) (tree : Tree) (e : Expression) : Prop where
  done_iff : e.status = .done ↔ ∀ s : Tree, s.Within tree → ∃ x, s.value = .ok x
  of_done : e.status = .done → ∃ x, tree.value = .ok x ∧ e.result = keep x ∧ e.error = none
  of_not_done : e.status ≠ .done → e.status = .error ∧ e.result = .zero ∧
    ∃ err, tree.FailsWith err ∧ e.error = some err.message

namespace Expression

variable {keep : Number → Number} {tree : Tree} {e : Expression}

theorem endedWith_of_unfinished (h : e.isFinished = false) (o : Outcome) :
    e.endedWith keep o =
      { e with status := o.status, result := keep o.result, error := o.error? } := by
  rw [endedWith, h, if_neg Bool.false_ne_true]

theorem settled_done (h : e.isFinished = false) (ht : tree.Numeric) {x : Number}
    (hx : tree.value = .ok x) : (e.endedWith keep (.done x)).Settled keep tree := by
  rw [endedWith_of_unfinished h]
  exact {
    done_iff := ⟨fun _ _ hs => ht.exists_value_within hx hs, fun _ => rfl⟩
    of_done := fun _ => ⟨x, hx, rfl, rfl⟩
    of_not_done := fun hne => absurd rfl hne }

theorem settled_failed (h : e.isFinished = false) (hzero : keep .zero = .zero) {err : EvalError}
    (hfails : tree.FailsWith err) :
    (e.endedWith keep (.failed .zero err.message)).Settled keep tree := by
  rw [endedWith_of_unfinished h]
  exact {
    done_iff := by
      refine ⟨fun hdone => (nomatch hdone), fun hall => ?_⟩
      obtain ⟨s, hs, herr⟩ := hfails.exists_within
      obtain ⟨x, hx⟩ := hall s hs
      rw [herr] at hx
      cases hx
    of_done := fun hdone => nomatch hdone
    of_not_done := fun _ => ⟨rfl, hzero, err, hfails, rfl⟩ }

theorem isFinished_started (e : Expression) : e.started.isFinished = e.isFinished := by
  rw [started]
  split
  · next hs => simp [isFinished, hs, Status.isFinal]
  · rfl

theorem started_of_finished (h : e.isFinished = true) : e.started = e := by
  rw [started, if_neg]
  intro hs
  rw [isFinished, hs] at h
  cases h

theorem text_started (e : Expression) : e.started.text = e.text := by
  rw [started]
  split <;> rfl

end Expression

/-! ## 2. The invariant -/

variable {σ : Type} [Ledger σ]

/-- The row of an expression has not ended, and its formula has this tree. -/
structure OpenRow (s : σ) (e : Int) (row : Expression) (tree : Tree) : Prop where
  recorded : Ledger.get? e s = some row
  isOpen : row.isFinished = false
  plan : Plan.ofFormula row.text = .ok tree.plan
  numeric : tree.Numeric

/-- The tasks of an expression work out the formula in its row, which has not ended. -/
def Backed (s : σ) (ts : List Task) (e : Int) : Prop :=
  ∃ (row : Expression) (tree : Tree) (first : Int), OpenRow s e row tree ∧
    Working e tree first ts

/-- Only the tasks of the expression matter. -/
theorem Backed.congr {s : σ} {ts ts' : List Task} {e : Int} (h : Backed s ts e)
    (hsame : ∀ t, t.expressionId = e → (t ∈ ts' ↔ t ∈ ts)) : Backed s ts' e := by
  obtain ⟨row, tree, first, hrow, hw⟩ := h
  exact ⟨row, tree, first, hrow, hw.congr hsame⟩

variable [LawfulLedger σ]

/-- The row has said what its formula is worth, or it had ended in a ledger before. -/
def Accounted (before : σ) (id : Int) (row : Expression) : Prop :=
  (∃ old, Ledger.get? id before = some old ∧ old.isFinished = true) ∨
    ∀ tree : Tree, tree.Numeric → Plan.ofFormula row.text = .ok tree.plan →
      row.Settled (LawfulLedger.keep σ) tree

/-- A board and a ledger are in step, once some tasks have been handed out. -/
structure Sound (before : σ) (b : Board) (s : σ) (out : List Task) : Prop where
  valid : LawfulLedger.Valid s
  served : b.Served
  out : ∀ t ∈ b.tasks.values, t.status = .computing → t ∈ out
  backed : ∀ e, b.isLive e = true → Backed s b.tasks.values e
  accounted : ∀ id row, Ledger.get? id s = some row → row.isFinished = true →
    Accounted before id row

namespace Sound

variable {before s s' : σ} {b b' : Board} {out : List Task}

theorem coherent (h : Sound before b s out) : b.Coherent := h.served.reachable.coherent

theorem counted (h : Sound before b s out) : b.Counted := h.served.counted

/-! ## 3. Changes of the ledger -/

theorem ignores (h : Sound before b s out) (hignores : Ledger.Ignores s s') :
    Sound before b s' out where
  valid := hignores.valid
  served := h.served
  out := h.out
  backed e he := by
    obtain ⟨row, tree, first, hrow, hw⟩ := h.backed e he
    exact ⟨row, tree, first, { hrow with recorded := (hignores.same e).trans hrow.recorded }, hw⟩
  accounted id row hrow := h.accounted id row ((hignores.same id).symm.trans hrow)

/-- One row changes. While the expression is live its row keeps the text and does
not end; a row that ends is accounted for. -/
theorem sets (h : Sound before b s out) {id : Int} {row' : Expression}
    (hsets : Ledger.Sets id row' s s')
    (hlive : b.isLive id = true → row'.isFinished = false ∧
      ∀ row, Ledger.get? id s = some row → row'.text = row.text)
    (hfinished : row'.isFinished = true → Accounted before id row') : Sound before b s' out where
  valid := hsets.valid
  served := h.served
  out := h.out
  backed e he := by
    obtain ⟨row, tree, first, hrow, hw⟩ := h.backed e he
    by_cases hid : e = id
    · subst hid
      obtain ⟨hopen', htext⟩ := hlive he
      refine ⟨row', tree, first, ?_, hw⟩
      exact {
        recorded := hsets.get?_self
        isOpen := hopen'
        plan := by rw [htext row hrow.recorded, hrow.plan]
        numeric := hrow.numeric }
    · have hrecorded : Ledger.get? e s' = some row :=
        (hsets.get?_of_ne hid).trans hrow.recorded
      exact ⟨row, tree, first, { hrow with recorded := hrecorded }, hw⟩
  accounted j row hrow := by
    rw [hsets.sets] at hrow
    split at hrow
    · next hj =>
      cases hrow
      rw [hj]
      exact hfinished
    · exact h.accounted j row hrow

/-- The row of an expression that is not live may be any that is accounted for. -/
theorem sets_of_not_live (h : Sound before b s out) {id : Int} {row : Expression}
    (hsets : Ledger.Sets id row s s') (hlive : b.isLive id = false)
    (hfinished : row.isFinished = true → Accounted before id row) : Sound before b s' out := by
  refine h.sets hsets (fun hl => ?_) hfinished
  rw [hlive] at hl
  cases hl

/-- A live expression has a row. -/
theorem isLive_of_fresh (h : Sound before b s out) {id : Int} (hfresh : Ledger.get? id s = none) :
    b.isLive id = false := by
  rw [← Bool.not_eq_true]
  intro hlive
  obtain ⟨row, tree, first, hrow, -⟩ := h.backed id hlive
  cases hfresh.symm.trans hrow.recorded

/-- What is recorded of an expression that ends without tasks is what its formula is worth:
a constant is worth itself, and a text that is no formula has no tree. -/
theorem accounted_of_rowWithoutTasks {id : Int} {row : Expression}
    (hrow : Dispatcher.RowWithoutTasks s id row) (hfinished : row.isFinished = true) :
    Accounted before id row := by
  cases hrow with
  | submitted fresh => cases hfinished
  | constant found isOpen formula constant =>
    refine .inr fun tree htree hplan => ?_
    rw [Expression.endedWith_of_unfinished isOpen] at hplan
    cases formula.symm.trans hplan
    cases tree with
    | leaf text =>
      have hx : Number.ofText? text = some _ := constant
      exact Expression.settled_done isOpen htree (by rw [Tree.value, hx])
    | node op l r => cases constant
  | rejected found isOpen noFormula =>
    refine .inr fun tree _ hplan => ?_
    rw [Expression.endedWith_of_unfinished isOpen] at hplan
    cases noFormula.symm.trans hplan

/-! ## 4. Changes of the board -/

/-- The tasks of an expression that is not live come on the board. -/
theorem addPlan (h : Sound before b s out) {id : Int} {row : Expression} {tree : Tree}
    {tokens : List String} {timings : Timings} (hlive : b.isLive id = false)
    (hrow : OpenRow s id row tree)
    (htokens : Plan.ofTokens tokens = .ok tree.plan) :
    Sound before (b.addPlan id tree.plan timings) s out := by
  have hl := Board.linked_tasksFor htokens b id timings
  have hvalues := h.coherent.values_addPlan hl
  have hnone : ∀ t ∈ b.tasks.values, t.expressionId ≠ id := by
    intro t ht he
    have hlive' := h.coherent.isLive_of_get? ((Board.mem_tasks_iff h.coherent).1 ht)
    rw [he, hlive] at hlive'
    cases hlive'
  refine ⟨h.valid, .addPlan id timings h.served htokens hlive, ?_, ?_, h.accounted⟩
  · intro t ht hs
    rw [hvalues] at ht
    rcases List.mem_append.1 ht with ht | ht
    · exact h.out t ht hs
    · rw [hl.fresh t ht] at hs
      cases hs
  · intro e he
    rw [hvalues]
    by_cases hid : e = id
    · subst hid
      refine ⟨row, tree, b.nextId, hrow, ?_⟩
      refine (Working.plan e b.nextId tree timings).congr fun t ht => ?_
      rw [List.mem_append]
      exact ⟨fun hmem => hmem.resolve_left fun hmem => hnone t hmem ht, .inr⟩
    · have he' := ((b.isLive_addPlan _ _ _ _).1 he).resolve_left fun hnew => hid hnew.2
      refine (h.backed e he').congr fun t ht => ?_
      rw [List.mem_append]
      exact ⟨fun hmem => hmem.resolve_right fun hmem => hid (ht.symm.trans (hl.owner t hmem)), .inl⟩

/-- The tasks of an expression leave the board, and those of the others stay. -/
theorem evict (h : Sound before b s out) {e : Int} (hserved : (b'.evict e).Served)
    (hvalues : (b'.evict e).tasks.values = b.tasks.values.filter fun t => t.expressionId != e)
    (hlive : ∀ e', e' ≠ e → b'.isLive e' = b.isLive e') : Sound before (b'.evict e) s out := by
  have hmem : ∀ t, t ∈ (b'.evict e).tasks.values ↔ t ∈ b.tasks.values ∧ t.expressionId ≠ e := by
    intro t
    rw [hvalues, List.mem_filter, bne_iff_ne]
  refine ⟨h.valid, hserved, fun t ht hs => h.out t ((hmem t).1 ht).1 hs, fun e' he' => ?_,
    h.accounted⟩
  rw [Board.isLive_evict, Bool.and_eq_true, bne_iff_ne] at he'
  refine (h.backed e' (hlive e' he'.1 ▸ he'.2)).congr fun t ht => ?_
  rw [hmem]
  exact ⟨And.left, fun hmem => ⟨hmem, fun he => he'.1 (ht.symm.trans he)⟩⟩

/-- A task is out with a worker. -/
theorem handOut (h : Sound before b s out) {t : Task} (hpeek : b.peek? = some t) :
    Sound before (b.handOut t.id t) s ({ t with status := .computing } :: out) := by
  have hmem : t ∈ b.tasks.values ∧ t.isRunnable = true := by
    rw [Board.peek?_eq_find? h.coherent] at hpeek
    exact ⟨List.mem_of_find?_eq_some hpeek, List.find?_some hpeek⟩
  have hget := (Board.mem_tasks_iff h.coherent).1 hmem.1
  have hvalues := Board.values_handOut h.coherent hget
  have hunique : ∀ u ∈ b.tasks.values, u.id = t.id → u = t := fun u hu hid =>
    Board.eq_of_id_eq h.coherent hget hu hid
  have hclaim : b.claim? = some ({ t with status := .computing }, b.handOut t.id t) := by
    rw [Board.claim?_eq h.coherent, hpeek]
    rfl
  refine ⟨h.valid, .claim h.served hclaim, ?_, fun e he => ?_, h.accounted⟩
  · rw [hvalues]
    refine List.forall_mem_map.2 fun u hu hs => ?_
    rw [Board.handedOut] at hs ⊢
    split at hs
    · next hid =>
      rw [if_pos hid, hunique u hu hid]
      exact List.mem_cons_self
    · next hid =>
      rw [if_neg hid]
      exact List.mem_cons_of_mem _ (h.out u hu hs)
  · obtain ⟨row, tree, first, hrow, hw⟩ := h.backed e he
    rw [hvalues]
    refine ⟨row, tree, first, hrow, hw.handOut fun u hu hid => ?_⟩
    rw [hunique u hu hid, (t.isRunnable_iff.1 hmem.2).1]
    rfl

/-! ## 5. Reports -/

/-- What a report that carries out its task means for the row of its expression. -/
theorem settles (h : Sound before b s out) {r : Report}
    (honest : ∀ t ∈ out, t.id = r.id → r = t.execute) {c : Completion}
    (hcomplete : b.complete r = .ok (c, b')) :
    ∃ (t : Task) (row : Expression) (tree : Tree) (first : Int), b.get? r.id = some t ∧
      t.status = .computing ∧ Board.Completes b r t c b' ∧
      OpenRow s t.expressionId row tree ∧ Board.Settles t.expressionId tree first c b' := by
  obtain ⟨t, ht, hs, hc⟩ := Board.completes_of_complete hcomplete
  have hid := h.coherent.id_eq r.id t ht
  have hmem := Board.mem_tasks_of_get? h.coherent ht
  obtain ⟨row, tree, first, hrow, hw⟩ :=
    h.backed t.expressionId (h.coherent.isLive_of_get? ht)
  have hr := honest t (h.out t hmem hs) hid
  exact ⟨t, row, tree, first, ht, hs, hc, hrow,
    Board.settles_of_execute h.coherent h.counted hrow.numeric hw ht hs rfl hr hc⟩

/-- A report that does not end an expression. -/
theorem progressed (h : Sound before b s out) {r : Report}
    (honest : ∀ t ∈ out, t.id = r.id → r = t.execute) {unblocked : Option Int}
    (hcomplete : b.complete r = .ok (.progressed unblocked, b')) : Sound before b' s out := by
  obtain ⟨t, row, tree, first, ht, hs, hc, hrow, hsettles⟩ := h.settles honest hcomplete
  have hserved := h.served.progressed hcomplete
  have hvalues : b'.tasks.values = b.tasks.values.map (Board.afterValue r) := by
    cases hc with
    | progressed isValue some_left => exact Board.values_afterValue h.coherent ht hs
  refine ⟨h.valid, hserved, ?_, fun e he => ?_, h.accounted⟩
  · rw [hvalues]
    refine List.forall_mem_map.2 fun u hu hus => ?_
    rw [Board.afterValue_of_computing h.coherent hu hus]
    exact h.out u hu (by rw [← Board.afterValue_of_computing h.coherent hu hus, hus])
  · by_cases hid : e = t.expressionId
    · rw [hid]
      cases hsettles with
      | progressed working => exact ⟨row, tree, first, hrow, working⟩
    · have he' : b.isLive e = true := by
        rw [Board.isLive_iff_exists_mem hserved.reachable.coherent, hvalues] at he
        rw [Board.isLive_iff_exists_mem h.coherent]
        obtain ⟨u, hu, hue⟩ := he
        obtain ⟨v, hv, rfl⟩ := List.mem_map.1 hu
        exact ⟨v, hv, by rw [← hue, Board.expressionId_afterValue]⟩
      refine (h.backed e he').congr fun u hu => ?_
      rw [hvalues]
      exact Board.mem_map_afterValue h.coherent ht fun heq => hid (hu.symm.trans heq)

/-- A report that ends an expression accounts for its row. -/
theorem finished (h : Sound before b s out) {r : Report}
    (honest : ∀ t ∈ out, t.id = r.id → r = t.execute) {e : Int} {o : Outcome}
    (hcomplete : b.complete r = .ok (.finished e o, b')) :
    Sound before (b'.evict e) s out ∧ ∀ row, Ledger.get? e s = some row →
      Accounted before e (row.endedWith (LawfulLedger.keep σ) o) := by
  obtain ⟨t, row, tree, first, ht, hs, hc, hrow, hsettles⟩ := h.settles honest hcomplete
  have he : t.expressionId = e := by cases hsettles <;> rfl
  subst he
  refine ⟨h.evict (h.served.finished hcomplete)
    (Board.values_evict_of_completes h.coherent ht hs hc rfl) fun e' hne => ?_, ?_⟩
  · cases hc with
    | failed isError => rfl
    | last isValue none_left =>
      rw [Board.isLive, Board.markDone, IdMap.contains_insert, beq_false_of_ne hne]
      rfl
  · intro row' hrow'
    rw [hrow.recorded] at hrow'
    cases hrow'
    refine .inr fun tree' htree' hplan' => ?_
    -- The row keeps its text, so its tree is the one that was worked out.
    have hsame : tree' = tree := by
      rw [Expression.endedWith_of_unfinished hrow.isOpen, hrow.plan] at hplan'
      exact (Plan.tree_eq_of_plan_eq (Except.ok.inj hplan')).symm
    subst hsame
    cases hsettles with
    | failed fails => exact Expression.settled_failed hrow.isOpen LawfulLedger.keep_zero fails
    | done value => exact Expression.settled_done hrow.isOpen hrow.numeric value

end Sound

end Reckoner
