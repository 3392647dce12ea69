/-
Reckoner.Proofs.Dispatcher.Commute — reports on two tasks may come in either order.

Two tasks are out with workers, and a report comes in on each. What the second one
decides does not depend on whether the first has been taken: the two are on tasks of
different expressions, or both bring a value and neither is the last of its
expression, since the root of the expression waits for one of the two tasks
(`Charted.exists_pending`). So all that a dispatcher holds is the same afterwards
(`accepted_reports_commute`).

  1. Counts
  2. A report that is taken
  3. The second report
  4. Two reports
  5. Every state
-/
import Reckoner.Proofs.Dispatcher.CaughtUp
import Reckoner.Proofs.Dispatcher.Charted

namespace Reckoner

/-! ## 1. Counts -/

namespace Metrics

/-- The counts once a report has been taken, which may have ended an expression with
tasks of these ids. -/
def settle (m : Metrics) (r : Report) (ids : List Int) : Option Outcome → Metrics
  | none => m.recordReport r.id r.errorText?.isSome
  | some o => ((m.recordReport r.id r.errorText?.isSome).forget ids).recordEnd o

/-- Each count is a sum, and the ids of the tasks that are out are a set. -/
theorem settle_eq (m : Metrics) (r : Report) (ids : List Int) (end? : Option Outcome) :
    m.settle r ids end? = { m with
      done := m.done + (end?.any fun o => o.status = .done).toNat
      failed := m.failed + (end?.any fun o => o.status = .error).toNat
      tasksCompleted := m.tasksCompleted + r.errorText?.isNone.toNat
      tasksFailed := m.tasksFailed + r.errorText?.isSome.toNat
      inFlight := m.inFlight.eraseAll (r.id :: (end?.elim [] fun _ => ids)) } := by
  have hcounts : m.recordReport r.id r.errorText?.isSome = { m with
      tasksCompleted := m.tasksCompleted + r.errorText?.isNone.toNat
      tasksFailed := m.tasksFailed + r.errorText?.isSome.toNat
      inFlight := m.inFlight.eraseAll [r.id] } := by
    rw [IdMap.eraseAll_cons, IdMap.eraseAll_nil]
    cases r.errorText? <;> rfl
  cases end? with
  | none =>
    rw [settle, hcounts]
    rfl
  | some o =>
    rw [settle, hcounts, IdMap.eraseAll_cons, forget, IdMap.eraseAll_cons, IdMap.eraseAll_nil]
    cases o <;> rfl

/-- Two reports are counted in either order. -/
theorem settle_comm (m : Metrics) (ra rb : Report) (ia ib : List Int) (va vb : Option Outcome) :
    (m.settle ra ia va).settle rb ib vb = (m.settle rb ib vb).settle ra ia va := by
  simp only [settle_eq]
  rw [Nat.add_right_comm m.done, Nat.add_right_comm m.failed, Nat.add_right_comm m.tasksCompleted,
    Nat.add_right_comm m.tasksFailed, IdMap.eraseAll_comm m.inFlight]

/-- It does not matter how the ids are listed. -/
theorem settle_congr (m : Metrics) (r : Report) {ids ids' : List Int}
    (h : ∀ id, id ∈ ids ↔ id ∈ ids') (end? : Option Outcome) :
    m.settle r ids end? = m.settle r ids' end? := by
  cases end? with
  | none => rfl
  | some o =>
    rw [settle, settle, forget, forget, IdMap.eraseAll_congr _ h]

end Metrics

/-! ## 2. A report that is taken -/

variable {σ : Type} [Ledger σ] [LawfulLedger σ]

namespace Dispatcher

variable {d d' : Dispatcher σ} {r : Report} {t : Task}

/-- All that a report on a task makes of what a dispatcher holds, if no call is refused. -/
structure Takes (d : Dispatcher σ) (r : Report) (t : Task) (end? : Option Outcome)
    (d' : Dispatcher σ) : Prop where
  nextId : d'.board.nextId = d.board.nextId
  tasks : d'.board.tasks.values = Board.tasksAfter r t end? d.board.tasks.values
  metrics : d'.metrics = d.metrics.settle r (d.board.idsOf t.expressionId) end?
  rows : ∀ e, Ledger.get? e d'.ledger = (Ledger.get? e d.ledger).map fun row =>
    if e = t.expressionId then end?.elim row (row.endedWith (LawfulLedger.keep σ)) else row

theorem takes_of_report {out : List Task} (h : InStep d.board d.ledger out)
    (ht : d.board.get? r.id = some t) (hs : t.status = .computing)
    (hcall : refusalOf (d.report r).1 = none) :
    (d.report r).1 = .ok () ∧ d.Takes r t (d.board.verdict? r t) (d.report r).2 := by
  have hdecides := (reports h.valid r).decides h.coherent ht hs
  generalize d.board.verdict? r t = end? at hdecides
  generalize d.report r = called at hcall hdecides
  obtain ⟨answer, d'⟩ := called
  cases hdecides with
  | goesOn nextId values =>
    refine ⟨rfl, nextId, values, rfl, fun e => ?_⟩
    simp only [Option.elim_none, ite_self, Option.map_id']
  | @ends o b answer s nextId values sameIds finishes =>
    cases finishes with
    | refused ignores => cases hcall
    | recorded found sets =>
      refine ⟨rfl, nextId, values, d.metrics.settle_congr r sameIds (some o), fun e => ?_⟩
      by_cases he : e = t.expressionId
      · subst he
        rw [sets.get?_self, found]
        simp
      · rw [sets.get?_of_ne he]
        simp [he]

namespace Takes

variable {end? : Option Outcome} {ra rb : Report} {a b : Task}

theorem tasksOf_eq (h : d.Takes r t end? d') (hb : d.board.Coherent)
    (ht : d.board.get? r.id = some t) {e : Int} (he : e ≠ t.expressionId) :
    d'.board.tasksOf e = d.board.tasksOf e := by
  refine Board.tasksOf_eq_of_others he ?_
  rw [h.tasks]
  exact Board.filter_tasksAfter hb ht end?

/-! ## 3. The second report -/

/-- The other tasks that are out stay out, unless their expression has ended. -/
theorem get?_of_computing (h : d.Takes r t end? d') (hb : d.board.Coherent)
    (hb' : d'.board.Coherent) {u : Task} {id : Int} (hu : d.board.get? id = some u)
    (hs : u.status = .computing) (hid : id ≠ r.id)
    (hapart : u.expressionId ≠ t.expressionId ∨ end? = none) : d'.board.get? id = some u := by
  obtain rfl := hb.id_eq id u hu
  have hmem := Board.mem_tasks_of_get? hb hu
  refine (Board.mem_tasks_iff hb').1 ?_
  rw [h.tasks]
  cases end? with
  | some o =>
    have hne := hapart.resolve_right fun hnone => nomatch hnone
    exact List.mem_filter.2 ⟨hmem, bne_iff_ne.2 hne⟩
  | none =>
    have hstatus : (Board.afterValue r u).status = .computing := by
      rw [Board.status_afterValue hid, hs]
    rw [Board.tasksAfter, ← Board.afterValue_of_computing hb hmem hstatus]
    exact List.mem_map_of_mem hmem

/-- A report on another expression does not change what a report decides. -/
theorem verdict?_eq (h : d.Takes r t end? d') (hb : d.board.Served) (hb' : d'.board.Served)
    (ht : d.board.get? r.id = some t) {r' : Report} {u : Task}
    (hne : u.expressionId ≠ t.expressionId) :
    d'.board.verdict? r' u = d.board.verdict? r' u :=
  Board.verdict?_congr hb hb' (h.tasksOf_eq hb.reachable.coherent ht hne)

/-- A pending task stays pending when the report of a value has been taken. -/
theorem exists_pending (h : d.Takes r t none d') {u : Task} (hu : u ∈ d.board.tasks.values)
    (hs : u.status = .pending) (hid : u.id ≠ r.id) :
    ∃ v ∈ d'.board.tasks.values, v.id = u.id ∧ v.expressionId = u.expressionId ∧
      v.status = .pending := by
  refine ⟨Board.afterValue r u, ?_, Board.id_afterValue r u, Board.expressionId_afterValue r u,
    by rw [Board.status_afterValue hid, hs]⟩
  rw [h.tasks]
  exact List.mem_map_of_mem hu

/-- Where neither report changes what the other decides, they come to the same. -/
theorem swap {va vb : Option Outcome} {da db dab dba : Dispatcher σ}
    (ha : d.Takes ra a va da) (hab : da.Takes rb b vb dab) (hb : d.Takes rb b vb db)
    (hba : db.Takes ra a va dba) (hdab : dab.board.Served) (hdba : dba.board.Served)
    (hne : ra.id ≠ rb.id)
    (hapart : a.expressionId ≠ b.expressionId ∧
        da.board.idsOf b.expressionId = d.board.idsOf b.expressionId ∧
        db.board.idsOf a.expressionId = d.board.idsOf a.expressionId ∨
      va = none ∧ vb = none) :
    dab.board = dba.board ∧ Ledger.SameRows dab.ledger dba.ledger ∧
      dab.metrics = dba.metrics := by
  refine ⟨?_, fun e => ?_, ?_⟩
  · refine hdba.eq_of_values hdab ?_ ?_
    · rw [hab.tasks, ha.tasks, hba.tasks, hb.tasks, Board.tasksAfter_comm hne]
    · rw [hab.nextId, ha.nextId, hba.nextId, hb.nextId]
  · rw [hab.rows, ha.rows, hba.rows, hb.rows, Option.map_map, Option.map_map]
    congr 1
    funext row
    rcases hapart with ⟨hne, -⟩ | ⟨rfl, rfl⟩
    · by_cases hea : e = a.expressionId
      · subst hea
        simp [hne]
      · simp [hea]
    · simp
  · rw [hab.metrics, ha.metrics, hba.metrics, hb.metrics]
    rcases hapart with ⟨-, hidsb, hidsa⟩ | ⟨rfl, rfl⟩
    · rw [hidsa, hidsb, Metrics.settle_comm]
    · exact d.metrics.settle_comm ra rb _ _ none none

/-! ## 4. Two reports -/

/-- The second report decides what it would have decided at first. -/
theorem verdict?_right (h : d.Takes ra a (d.board.verdict? ra a) d')
    (hpair : d.board.Pair ra rb a b) (hd : d.board.Served) (hd' : d'.board.Served)
    (hget : d'.board.get? rb.id = some b) :
    d'.board.verdict? rb b = d.board.verdict? rb b := by
  by_cases hsame : a.expressionId = b.expressionId
  · have hcoherent := hd.reachable.coherent
    rw [hpair.symm.verdict?_left hd hsame.symm]
    rw [hpair.verdict?_left hd hsame] at h
    obtain ⟨-, hvalue, u, hu, hs, -, howner⟩ := hpair.apart.resolve_left (not_not.2 hsame)
    obtain ⟨v, hv, hvid, hve, hvs⟩ :=
      h.exists_pending hu hs (Board.id_ne_of_pending hcoherent hpair.left hpair.leftOut hu hs)
    have hne := Board.id_ne_of_pending hcoherent hpair.right hpair.rightOut hu hs
    exact Board.verdict?_of_open hd' hvalue hget hpair.rightOut hv (hve.trans howner)
      (hvid.trans_ne hne) (by rw [hvs]; rfl)
  · exact h.verdict?_eq hd hd' hpair.left (Ne.symm hsame)

end Takes

/-- The two reports one after the other, each with what it decides at first. -/
theorem takes_pair {out : List Task} {ra rb : Report} {a b : Task} (h : d.board.Pair ra rb a b)
    (hin : InStep d.board d.ledger out)
    (hcall : refusalOf (d.report ra).1 = none)
    (hcall' : refusalOf ((d.report ra).2.report rb).1 = none) :
    (d.report ra).1 = .ok () ∧ ((d.report ra).2.report rb).1 = .ok () ∧
      d.Takes ra a (d.board.verdict? ra a) (d.report ra).2 ∧
      (d.report ra).2.Takes rb b (d.board.verdict? rb b) ((d.report ra).2.report rb).2 ∧
      ((d.report ra).2.report rb).2.board.Served := by
  obtain ⟨hanswer, htakes⟩ := takes_of_report hin h.left h.leftOut hcall
  have hin₁ := (reports hin.valid ra).keeps (InStep.keptByChanges out) hin
  have hget := htakes.get?_of_computing hin.coherent hin₁.coherent h.right h.rightOut h.ne.symm
    ((em (a.expressionId = b.expressionId)).symm.imp Ne.symm (h.verdict?_left hin.served))
  have hin₂ := (reports hin₁.valid rb).keeps (InStep.keptByChanges out) hin₁
  obtain ⟨hanswer', htakes'⟩ := takes_of_report hin₁ hget h.rightOut hcall'
  rw [htakes.verdict?_right h hin.served hin₁.served hget] at htakes'
  exact ⟨hanswer, hanswer', htakes, htakes', hin₂.served⟩

end Dispatcher

/-- Two tasks of an expression are out with workers. Then a third is pending, since the
root waits for one of the two. -/
theorem Charted.exists_pending {b : Board} {s : σ} {out : List Task} (h : Charted b s out)
    {t u : Task} (ht : t ∈ b.tasks.values) (hu : u ∈ b.tasks.values) (hts : t.status = .computing)
    (hus : u.status = .computing) (howner : u.expressionId = t.expressionId) (hne : t.id ≠ u.id) :
    ∃ v ∈ b.tasks.values, v.status = .pending ∧ v.expressionId = t.expressionId := by
  wlog hlt : t.id < u.id generalizing t u
  · obtain ⟨v, hv, hs, he⟩ := this hu ht hus hts howner.symm hne.symm (by omega)
    exact ⟨v, hv, hs, he.trans howner⟩
  have hlive := (Board.isLive_iff_exists_mem h.coherent t.expressionId).2 ⟨t, ht, rfl⟩
  obtain ⟨row, tree, first, -, hfollows⟩ := h.followed t.expressionId hlive
  obtain ⟨i, hi, hid⟩ := hfollows.mem_id hu howner
  rw [Tree.size_plan] at hi
  obtain ⟨v, hv, he, side, ho⟩ :=
    hfollows.awaited h.coherent ht rfl (by rw [hts]; decide) (by omega)
  exact ⟨v, hv, h.coherent.status_pending ((Board.mem_tasks_iff h.coherent).1 hv) ho, he⟩

/-! ## 5. Every state -/

namespace Session

variable {before : σ} {timings : Timings}

/-- Two tasks are out with workers, of different expressions or both reported on with a
value, and the ledger takes all calls. Then the reports are taken in either order, and
the board, the rows and the counts are the same afterwards. -/
theorem accepted_reports_commute (hvalid : LawfulLedger.Valid before) (es : List Event) :
    let d := ((start timings before).run es).dispatcher
    ∀ (ra rb : Report) (a b : Task), d.board.get? ra.id = some a → d.board.get? rb.id = some b →
      a.status = .computing → b.status = .computing → ra.id ≠ rb.id →
      (a.expressionId ≠ b.expressionId ∨ ra.errorText? = none ∧ rb.errorText? = none) →
      let da := d.report ra
      let dab := da.2.report rb
      let db := d.report rb
      let dba := db.2.report ra
      refusalOf da.1 = none → refusalOf dab.1 = none → refusalOf db.1 = none →
      refusalOf dba.1 = none →
      da.1 = .ok () ∧ dab.1 = .ok () ∧ db.1 = .ok () ∧ dba.1 = .ok () ∧
        dab.2.board = dba.2.board ∧ Ledger.SameRows dab.2.ledger dba.2.ledger ∧
        dab.2.metrics = dba.2.metrics := by
  intro d ra rb a b ha hb has hbs hne hvalues da dab db dba hcallA hcallAB hcallB hcallBA
  have hcharted : ((start timings before).run es).IsCharted :=
    isCharted_run (isCharted_start hvalid) es
  have hin : InStep d.board d.ledger _ := hcharted.inStep
  have hpair : d.board.Pair ra rb a b := by
    refine ⟨ha, hb, has, hbs, hne, ?_⟩
    by_cases hsame : a.expressionId = b.expressionId
    · obtain ⟨hra, hrb⟩ := hvalues.resolve_left (not_not.2 hsame)
      have hids : a.id ≠ b.id := by
        rwa [hin.coherent.id_eq _ a ha, hin.coherent.id_eq _ b hb]
      obtain ⟨u, hu, hs, he⟩ := hcharted.exists_pending
        (Board.mem_tasks_of_get? hin.coherent ha) (Board.mem_tasks_of_get? hin.coherent hb) has hbs
        hsame.symm hids
      exact .inr ⟨hra, hrb, u, hu, hs, he, he.trans hsame⟩
    · exact .inl hsame
  obtain ⟨hA, hAB, htakesA, htakesAB, hservedAB⟩ :=
    Dispatcher.takes_pair hpair hin hcallA hcallAB
  obtain ⟨hB, hBA, htakesB, htakesBA, hservedBA⟩ :=
    Dispatcher.takes_pair hpair.symm hin hcallB hcallBA
  refine ⟨hA, hAB, hB, hBA, htakesA.swap htakesAB htakesB htakesBA hservedAB hservedBA hne ?_⟩
  by_cases hsame : a.expressionId = b.expressionId
  · exact .inr ⟨hpair.verdict?_left hin.served hsame,
      hpair.symm.verdict?_left hin.served hsame.symm⟩
  · refine .inl ⟨hsame, ?_, ?_⟩
    · exact congrArg (List.map _) (htakesA.tasksOf_eq hin.coherent ha (Ne.symm hsame))
    · exact congrArg (List.map _) (htakesB.tasksOf_eq hin.coherent hb hsame)

/-- Both values go into the last task of the first expression. The second expression
fails, whichever of its reports comes first. -/
theorem accepted_reports_commute_operands :
    let events : List Event := [.request (.submit "(1+2)*(3+4)" 1), .request .claim,
      .request .claim, .request (.submit "5/0" 2), .request .claim]
    let d := ((start {} ({} : MemoryLedger)).run events).dispatcher
    let ra := Report.success 1 (.ofInt 3)
    let rb := Report.success 2 (.ofInt 7)
    let rc := Report.failure 4 "division by zero"
    ((d.report ra).2.report rb).2.board = ((d.report rb).2.report ra).2.board ∧
      ((d.report ra).2.report rc).2.metrics = ((d.report rc).2.report ra).2.metrics := by
  intro events d ra rb rc
  have hempty : LawfulLedger.Valid ({} : MemoryLedger) := fun _ _ h => nomatch h
  have hd : d = ((start {} ({} : MemoryLedger)).run events).dispatcher := rfl
  have hall := @accepted_reports_commute _ _ _ ({} : MemoryLedger) {} hempty events
  rw [← hd] at hall
  let a : Task := ⟨1, 1, .literal "1", .literal "2", .add, 1000, .computing, none, none⟩
  let b : Task := ⟨2, 1, .literal "3", .literal "4", .add, 1000, .computing, none, none⟩
  let c : Task := ⟨4, 2, .literal "5", .literal "0", .divide, 1000, .computing, none, none⟩
  have ha : d.board.get? ra.id = some a := by decide +kernel
  have hb : d.board.get? rb.id = some b := by decide +kernel
  have hc : d.board.get? rc.id = some c := by decide +kernel
  have hvalues := hall ra rb a b ha hb rfl rfl (by decide) (.inr ⟨rfl, rfl⟩) (by decide +kernel)
    (by decide +kernel) (by decide +kernel) (by decide +kernel)
  have hfailure := hall ra rc a c ha hc rfl rfl (by decide) (.inl (by decide)) (by decide +kernel)
    (by decide +kernel) (by decide +kernel) (by decide +kernel)
  exact ⟨hvalues.2.2.2.2.1, hfailure.2.2.2.2.2.2⟩

end Session

end Reckoner
