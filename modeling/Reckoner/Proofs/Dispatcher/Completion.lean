/-
Reckoner.Proofs.Dispatcher.Completion — an expression ends at the right report.

Any values may be reported, and any calls may be refused. Here a session is looked at
together with the reports that its board has taken (`taken`). The tasks of a live
expression have brought as many values as there are reports on them. A report that brings
an error ends the expression, and so does the last value: that is always the one of the
root, which waits for all the others (`completion_exact`). No other request ends the row
of a formula with an operator.

  1. The reports that were taken
  2. What operations keep
  3. Rows that do not end
  4. What a report decides
  5. Live expressions
  6. Every run
-/
import Reckoner.Proofs.Board.Log
import Reckoner.Proofs.Dispatcher.CaughtUp
import Reckoner.Proofs.Dispatcher.Charted

namespace Reckoner

variable {σ : Type} [Ledger σ]

/-! ## 1. The reports that were taken -/

/-- The report if the answer to it says that it was taken: the ledger may still have
refused what came of it. -/
def Report.ifTaken (r : Report) : Except DispatchError Unit → List Report
  | .error (.board _) => []
  | _ => [r]

namespace Session

/-- The report that is taken in a request, if it is one. -/
def takenBy (s : Session σ) : Request → List Report
  | .report r => r.ifTaken (s.dispatcher.report r).1
  | .submit _ _ | .claim | .recover => []

/-- The reports that are taken in some requests, in their order. -/
def taken (s : Session σ) : List Request → List Report
  | [] => []
  | q :: qs => s.takenBy q ++ (s.step q).taken qs

end Session

variable [LawfulLedger σ]

namespace Dispatcher

variable {d d' : Dispatcher σ} {log : List Report}

/-! ## 2. What operations keep -/

/-- New tasks are on no list, so that taking up an expression needs no report. -/
theorem keptByTakingUp_logged (out : List Task) (log : List Report) :
    KeptByTakingUp fun d : Dispatcher σ => InStep d.board d.ledger out ∧ d.board.Logged log where
  ignores h hignores := ⟨h.1.ignores hignores, h.2⟩
  sets h _ hsets hlive := ⟨h.1.sets_of_not_live hsets hlive, h.2⟩
  addPlan {d id row plan} h hlive hrow hopen hplan := by
    obtain ⟨-, tokens, -, -, htokens⟩ := Plan.exists_tree_of_ofFormula hplan
    exact ⟨h.1.addPlan hlive hrow hopen htokens,
      h.2.addPlan h.1.coherent (Board.linked_tasksFor htokens d.board id d.timings)⟩
  recordEnd _ h := h
  recordSubmission h := h
  recordRecovery _ h := h
  isLive_of_fresh h := h.1.isLive_of_fresh

theorem Claims.logged {answer : Except DispatchError Task} (h : Claims d answer d')
    (hb : d.board.Coherent) (hlog : d.board.Logged log) : d'.board.Logged log := by
  cases h with
  | idle nothing => exact hlog
  | refused next ignores => exact hlog
  | handedOut next found sets => exact hlog.handOut hb next

/-- A report that is taken goes on the list, whether or not the ledger takes its call. -/
theorem Reports.logged {r : Report} {answer : Except DispatchError Unit}
    (h : Reports d r answer d') (hb : d.board.Coherent) (hlog : d.board.Logged log) :
    d'.board.Logged (log ++ r.ifTaken answer) := by
  cases h with
  | rejected rejects =>
    rw [Report.ifTaken, List.append_nil]
    exact hlog
  | progressed completes =>
    obtain ⟨t, ht, hs, hc⟩ := Board.completes_of_complete completes
    have hnext := hc.nextId_eq
    cases hc with
    | progressed isValue some_left =>
      exact hlog.progressed hb ht hs isValue (Board.values_afterValue hb ht hs) hnext
  | @ended e o b answer s completes finishes =>
    obtain ⟨t, ht, hs, hc⟩ := Board.completes_of_complete completes
    obtain rfl := hc.owner_of_finished
    have htaken : r.ifTaken (answer.mapError .ledger) = [r] := by
      cases answer <;> rfl
    rw [htaken]
    exact hlog.ended hb ht hs (Board.values_evict_of_completes hb ht hs hc rfl) hc.nextId_eq

end Dispatcher

namespace Session

variable {s : Session σ} {log : List Report}

theorem logged_step (h : s.IsInStep) (hlog : s.dispatcher.board.Logged log) (q : Request) :
    (s.step q).dispatcher.board.Logged (log ++ s.takenBy q) := by
  have hb := h.coherent
  cases q with
  | report r => exact (reports h r).logged hb hlog
  | submit text owner =>
    rw [takenBy, List.append_nil]
    exact ((Dispatcher.submits h.valid text owner).keeps
      (Dispatcher.keptByTakingUp_logged s.handedOut log) ⟨h, hlog⟩).2
  | claim =>
    rw [takenBy, List.append_nil]
    exact (claims h).logged hb hlog
  | recover =>
    rw [takenBy, List.append_nil]
    exact ((Dispatcher.recovers h.valid).keeps
      (Dispatcher.keptByTakingUp_logged s.handedOut log) ⟨h, hlog⟩).2

theorem logged_serve (h : s.IsInStep) (hlog : s.dispatcher.board.Logged log)
    (qs : List Request) : (s.serve qs).dispatcher.board.Logged (log ++ s.taken qs) := by
  induction qs generalizing s log with
  | nil =>
    rw [taken, List.append_nil]
    exact hlog
  | cons q qs ih =>
    have hrest := ih (isInStep_step h q) (logged_step h hlog q)
    rw [List.append_assoc] at hrest
    exact hrest

end Session

/-! ## 3. Rows that do not end -/

/-- A plan with an operation is no constant. -/
theorem Plan.constant?_eq_none {text : String} {plan : Plan}
    (h : Plan.ofFormula text = .ok plan) (hsize : 0 < plan.size) : plan.constant? = none := by
  obtain ⟨tree, -, -, rfl, -⟩ := Plan.exists_tree_of_ofFormula h
  cases tree with
  | leaf text => cases hsize
  | node op l r => rfl

namespace Dispatcher

variable {d d' : Dispatcher σ} {e : Int} {row : Expression}

/-- Taking up an expression changes its row only if its formula is a constant. -/
theorem Enqueues.get?_eq {id : Int} {plan : Plan} {answer : Except DispatchError Unit}
    (h : Enqueues d id plan answer d') (hoperator : e = id → plan.constant? = none) :
    Ledger.get? e d'.ledger = Ledger.get? e d.ledger := by
  cases h with
  | admitted operator => rfl
  | refused constant ignores => exact ignores.same e
  | ended constant found sets =>
    refine sets.get?_of_ne fun he => ?_
    rw [hoperator he] at constant
    cases constant

theorem Submits.get?_eq {text : String} {owner : Int} {answer : Except DispatchError Int}
    (h : Submits d text owner answer d') (hrow : Ledger.get? e d.ledger = some row) :
    Ledger.get? e d'.ledger = some row := by
  have hne : ∀ {id}, Ledger.get? id d.ledger = none → e ≠ id := fun hfresh he => by
    rw [← he, hrow] at hfresh
    cases hfresh
  cases h with
  | rejected noFormula => exact hrow
  | refused formula ignores => exact (ignores.same e).trans hrow
  | unrecorded formula fresh sets enqueues =>
    rw [enqueues.get?_eq fun he => absurd he (hne fresh)]
    exact (sets.get?_of_ne (hne fresh)).trans hrow
  | taken formula fresh sets enqueues =>
    have htaken := enqueues.get?_eq fun he => absurd he (hne fresh)
    exact htaken.trans ((sets.get?_of_ne (hne fresh)).trans hrow)

variable {plan : Plan}

theorem RecoversOne.get?_eq {counts : RecoveryReport} {e' : Expression}
    {answer : Except DispatchError RecoveryReport} (h : RecoversOne d counts e' answer d')
    (hfound : Ledger.get? e'.id d.ledger = some e') (hrow : Ledger.get? e d.ledger = some row)
    (hplan : Plan.ofFormula row.text = .ok plan) (hsize : 0 < plan.size) :
    Ledger.get? e d'.ledger = some row := by
  have hsame : e = e'.id → row = e' := fun he => by
    rw [he, hfound] at hrow
    exact (Option.some.inj hrow).symm
  have hoperator : ∀ {plan'}, Plan.ofFormula e'.text = .ok plan' → e = e'.id →
      plan'.constant? = none := fun hplan' he => by
    rw [← hsame he, hplan] at hplan'
    cases hplan'
    exact Plan.constant?_eq_none hplan hsize
  cases h with
  | skipped live => exact hrow
  | replayed notLive formula enqueues => exact (enqueues.get?_eq (hoperator formula)).trans hrow
  | unrecorded notLive formula enqueues => exact (enqueues.get?_eq (hoperator formula)).trans hrow
  | refused notLive noFormula ignores => exact (ignores.same e).trans hrow
  | rejected notLive noFormula found sets =>
    refine (sets.get?_of_ne fun he => ?_).trans hrow
    rw [← hsame he, hplan] at noFormula
    cases noFormula

theorem RecoversEach.get?_eq {counts : RecoveryReport} {es : List Expression}
    {answer : Except DispatchError RecoveryReport} (h : RecoversEach d counts es answer d')
    (hrow : Ledger.get? e d.ledger = some row) (hplan : Plan.ofFormula row.text = .ok plan)
    (hsize : 0 < plan.size) : Ledger.get? e d'.ledger = some row := by
  induction h with
  | done => exact hrow
  | stopped valid found isOpen first => exact first.get?_eq found hrow hplan hsize
  | next valid found isOpen first rest ih => exact ih (first.get?_eq found hrow hplan hsize)

/-- A recovery leaves the row of a formula with an operator as it is. -/
theorem Recovers.get?_eq {answer : Except DispatchError RecoveryReport} (h : Recovers d answer d')
    (hrow : Ledger.get? e d.ledger = some row) (hplan : Plan.ofFormula row.text = .ok plan)
    (hsize : 0 < plan.size) : Ledger.get? e d'.ledger = some row := by
  cases h with
  | refused ignores => exact (ignores.same e).trans hrow
  | stopped ignores each => exact each.get?_eq ((ignores.same e).trans hrow) hplan hsize
  | recovered ignores all each listed =>
    have heach := each.get?_eq ((ignores.same e).trans hrow) hplan hsize
    exact heach

/-- A report changes no row but that of its own expression. -/
theorem Reports.get?_eq {r : Report} {answer : Except DispatchError Unit}
    (h : Reports d r answer d') (hb : d.board.Coherent) (hid : r.id ∉ d.board.idsOf e) :
    Ledger.get? e d'.ledger = Ledger.get? e d.ledger := by
  cases h with
  | rejected rejects => rfl
  | progressed completes => rfl
  | ended completes finishes =>
    obtain ⟨t, ht, -, hc⟩ := Board.completes_of_complete completes
    have howner := hc.owner_of_finished
    cases finishes with
    | refused ignores => exact ignores.same e
    | recorded found sets =>
      refine sets.get?_of_ne fun he => hid ?_
      exact (Board.mem_idsOf_iff hb.id_eq e r.id).2 ⟨t, ht, howner.trans he.symm⟩

/-- A claim ends no row. -/
theorem Claims.exists_unfinished {answer : Except DispatchError Task} (h : Claims d answer d')
    (hrow : Ledger.get? e d.ledger = some row) (hopen : row.isFinished = false) :
    ∃ row', Ledger.get? e d'.ledger = some row' ∧ row'.isFinished = false := by
  cases h with
  | idle nothing => exact ⟨row, hrow, hopen⟩
  | refused next ignores => exact ⟨row, (ignores.same e).trans hrow, hopen⟩
  | @handedOut t started s next found sets =>
    by_cases he : e = t.expressionId
    · subst he
      rw [hrow] at found
      cases found
      exact ⟨_, sets.get?_self, by rw [row.isFinished_started, hopen]⟩
    · exact ⟨row, (sets.get?_of_ne he).trans hrow, hopen⟩

end Dispatcher

/-! ## 4. What a report decides -/

namespace Session

variable {s : Session σ} {r : Report} {t : Task} {e : Int} {row : Expression}

/-- A report takes its expression off the board. The row ends with an outcome, or stays
as it is where the ledger refuses the call. -/
def EndsBy (s : Session σ) (r : Report) (e : Int) (row : Expression) (o : Outcome) : Prop :=
  (s.step (.report r)).dispatcher.board.isLive e = false ∧
    ((s.dispatcher.report r).1 = .ok () ∧
        Ledger.get? e (s.step (.report r)).dispatcher.ledger =
          some (row.endedWith (LawfulLedger.keep σ) o) ∨
      (∃ err, (s.dispatcher.report r).1 = .error (.ledger err)) ∧
        Ledger.get? e (s.step (.report r)).dispatcher.ledger = some row)

omit [LawfulLedger σ] in
/-- A report leaves its expression on the board, and its row as it is. -/
def GoesOn (s : Session σ) (r : Report) (e : Int) (row : Expression) : Prop :=
  (s.step (.report r)).dispatcher.board.isLive e = true ∧ (s.dispatcher.report r).1 = .ok () ∧
    Ledger.get? e (s.step (.report r)).dispatcher.ledger = some row

theorem follows_verdict (h : s.IsInStep) (ht : s.dispatcher.board.get? r.id = some t)
    (hs : t.status = .computing)
    (hrow : Ledger.get? t.expressionId s.dispatcher.ledger = some row) :
    match s.dispatcher.board.verdict? r t with
    | some o => s.EndsBy r t.expressionId row o
    | none => s.GoesOn r t.expressionId row := by
  have hdecides := (reports h r).decides h.coherent ht hs
  have hstep := isInStep_step h (.report r)
  generalize s.dispatcher.board.verdict? r t = end? at hdecides
  generalize hanswer : (s.dispatcher.report r).1 = answer at hdecides
  generalize hafter : (s.step (.report r)).dispatcher = after at hdecides
  cases hdecides with
  | goesOn nextId values =>
    refine ⟨?_, hanswer, by rw [hafter]; exact hrow⟩
    rw [Board.isLive_iff_exists_mem hstep.coherent, hafter]
    refine ⟨Board.afterValue r t, ?_, Board.expressionId_afterValue r t⟩
    rw [show _ = _ from values]
    exact List.mem_map_of_mem (Board.mem_tasks_of_get? h.coherent ht)
  | @ends o b answer s' nextId values sameIds finishes =>
    refine ⟨by rw [hafter]; exact b.isLive_evict_self t.expressionId, ?_⟩
    rw [hafter, hanswer]
    cases finishes with
    | refused ignores => exact .inr ⟨⟨_, rfl⟩, (ignores.same _).trans hrow⟩
    | recorded found sets =>
      rw [hrow] at found
      cases found
      exact .inl ⟨rfl, sets.get?_self⟩

/-- The board takes the reports on tasks that are out. -/
theorem exists_computing_of_mem_idsOf (h : s.IsInStep) (htaken : s.Accepts r)
    (hid : r.id ∈ s.dispatcher.board.idsOf e) :
    ∃ t, s.dispatcher.board.get? r.id = some t ∧ t.status = .computing ∧ t.expressionId = e := by
  obtain ⟨t, ht, hs⟩ := (reports h r).exists_computing htaken
  obtain ⟨u, hu, he⟩ := (Board.mem_idsOf_iff h.coherent.id_eq e r.id).1 hid
  rw [ht] at hu
  cases hu
  exact ⟨t, ht, hs, he⟩

/-- The row of a formula with an operator ends only with a report on the expression. -/
theorem exists_report_of_finished (h : s.IsInStep) {plan : Plan}
    (hrow : Ledger.get? e s.dispatcher.ledger = some row) (hopen : row.isFinished = false)
    (hplan : Plan.ofFormula row.text = .ok plan) (hsize : 0 < plan.size) {q : Request}
    {row' : Expression} (hrow' : Ledger.get? e (s.step q).dispatcher.ledger = some row')
    (hfinished : row'.isFinished = true) :
    ∃ r, q = .report r ∧ s.Accepts r ∧ r.id ∈ s.dispatcher.board.idsOf e := by
  have hsame : Ledger.get? e (s.step q).dispatcher.ledger ≠ some row := fun hsame => by
    rw [hrow'] at hsame
    cases hsame
    rw [hopen] at hfinished
    cases hfinished
  cases q with
  | submit text owner =>
    exact absurd ((Dispatcher.submits h.valid text owner).get?_eq hrow) hsame
  | recover => exact absurd ((Dispatcher.recovers h.valid).get?_eq hrow hplan hsize) hsame
  | claim =>
    obtain ⟨row'', hrow'', hopen'⟩ := (claims h).exists_unfinished hrow hopen
    rw [hrow'] at hrow''
    cases hrow''
    rw [hopen'] at hfinished
    cases hfinished
  | report r =>
    refine ⟨r, rfl, fun err herr => ?_, ?_⟩
    · have hreports := reports h r
      rw [herr] at hreports
      rcases Dispatcher.report_of_error h.coherent hreports.rejects.1 with heq | ⟨status, heq⟩ <;>
        exact hsame ((congrArg (fun called => Ledger.get? e called.2.ledger) heq).trans hrow)
    · by_contra hid
      exact hsame (((reports h r).get?_eq h.coherent hid).trans hrow)

end Session

/-! ## 5. Live expressions -/

/-- The last operation of a tree is the root of its plan. -/
theorem Tree.root_plan {tree : Tree} (hsize : 0 < tree.plan.size) :
    tree.plan.root = .node (tree.plan.size - 1) := by
  cases tree with
  | leaf text => cases hsize
  | node op l r =>
    rw [size_plan, size, Nat.add_sub_cancel]
    exact congrArg Plan.Source.node (by omega)

namespace Board

variable {b : Board} {log : List Report} {r : Report} {t : Task}

/-- An expression that lacks nothing more has left the board. -/
theorem lacking_pos (hb : b.Served) {id : Int} (ht : b.get? id = some t) :
    0 < b.lacking t.expressionId := by
  obtain ⟨n, hn⟩ := hb.counted.exists_succ hb.reachable.coherent ht
  rw [lacking, hn, Option.getD_some]
  exact Nat.succ_pos n

/-- What is lacking is the last result when all the other tasks have a report. -/
theorem Logged.none_left_iff (h : b.Logged log) (hb : b.Served) {id : Int}
    (ht : b.get? id = some t) : b.lacking t.expressionId - 1 = 0 ↔
      (b.reportsOn log t.expressionId).length + 1 = (b.idsOf t.expressionId).length := by
  have hpos := lacking_pos hb ht
  have hadd := h.lacking_add hb ht
  omega

/-- An expression ends when each of its tasks has a report. -/
theorem Logged.verdict?_eq (h : b.Logged log) (hb : b.Served) (ht : b.get? r.id = some t)
    (hvalue : r.errorText? = none) :
    b.verdict? r t =
      if (b.reportsOn log t.expressionId).length + 1 = (b.idsOf t.expressionId).length then
        some (.done r.result)
      else none := by
  rw [verdict?, hvalue]
  exact if_congr (h.none_left_iff hb ht) rfl rfl

/-- There has been a report on every other task of an expression that ends with a value. -/
theorem Logged.exists_report_of_last (h : b.Logged log) (hb : b.Served)
    (ht : b.get? r.id = some t) (hs : t.status = .computing)
    (hlast : b.lacking t.expressionId - 1 = 0) {id : Int} (hid : id ∈ b.idsOf t.expressionId)
    (hne : id ≠ r.id) : ∃ r' ∈ b.reportsOn log t.expressionId, r'.id = id := by
  have hcoherent := hb.reachable.coherent
  obtain ⟨u, hu, he⟩ := (mem_idsOf_iff hcoherent.id_eq t.expressionId id).1 hid
  have huid := hcoherent.id_eq id u hu
  have hmem := mem_tasks_of_get? hcoherent hu
  have hfinal : u.status.isFinal = true := by
    by_contra hopen
    exact some_left_of_open hcoherent hb.counted ht hs hmem he (huid.trans_ne hne)
      (Bool.not_eq_true _ ▸ hopen) hlast
  obtain ⟨r', hr', heq⟩ := h.reported u hmem hfinal
  exact ⟨r', mem_reportsOn.2 ⟨hr', by rwa [heq, huid]⟩, heq.trans huid⟩

/-- The last result of an expression is that of its last task: the tasks before it are
waited for. -/
theorem id_of_last (hb : b.Served) {first : Int} {tree : Tree}
    (hfollows : Follows t.expressionId tree.plan first b.tasks.values)
    (ht : b.get? r.id = some t) (hs : t.status = .computing)
    (hlast : b.lacking t.expressionId - 1 = 0) : r.id = first + (tree.plan.size - 1 : Nat) := by
  have hcoherent := hb.reachable.coherent
  have hmem := mem_tasks_of_get? hcoherent ht
  have htid := hcoherent.id_eq r.id t ht
  obtain ⟨i, hi, hid⟩ := hfollows.mem_id hmem rfl
  by_contra hne
  rw [Tree.size_plan] at hi hne
  obtain ⟨u, hu, he, side, ho⟩ :=
    hfollows.awaited hcoherent hmem rfl (by rw [hs]; decide) (by omega)
  exact some_left_of_awaited hcoherent hb.counted ht hs hu he ho hlast

/-- The operands of a task that can be handed out are those of its node: the values of
the nodes it refers to have been reported. -/
theorem Logged.operands_of_peek? (h : b.Logged log) (hb : b.Served) {first : Int} {plan : Plan}
    (hfollows : Follows t.expressionId plan first b.tasks.values) (hpeek : b.peek? = some t) :
    ∃ i n, t.id = first + (i : Nat) ∧ plan.nodes[i]? = some n ∧ t.operator = n.operator ∧
      ∀ side, match n.source side with
        | .literal text => t.operand side = .literal text
        | .node j => ∃ r ∈ b.reportsOn log t.expressionId, r.id = first + j ∧
            t.operand side = .literal r.result.sixPlaces := by
  have hcoherent := hb.reachable.coherent
  obtain ⟨i, n, hid, hn, hop, hsides⟩ := hfollows.at_node_of_peek? hcoherent hpeek rfl
  refine ⟨i, n, hid, hn, hop, fun side => ?_⟩
  have hside := hsides side
  cases hsource : n.source side with
  | literal text =>
    rw [hsource] at hside
    exact hside
  | node j =>
    rw [hsource] at hside
    obtain ⟨u, hu, hue, huid, x, hx, hresolved⟩ := hside
    obtain ⟨r, hr, hrid⟩ := h.reported u hu (by rw [hx.status]; rfl)
    have hvalue := (h.value r hr u hu hrid.symm).2.result
    rw [hx.result] at hvalue
    cases hvalue
    refine ⟨r, mem_reportsOn.2 ⟨hr, ?_⟩, hrid.trans huid, hresolved⟩
    exact (mem_idsOf_iff hcoherent.id_eq _ _).2
      ⟨u, by rw [hrid]; exact (mem_tasks_iff hcoherent).1 hu, hue⟩

end Board

/-! ## 6. Every run -/

namespace Session

variable {before : σ} {timings : Timings}

/-- What a report that is taken decides of its expression, told by the reports on it. -/
theorem report_decides {s : Session σ} {log : List Report} {e first : Int} {row : Expression}
    {tree : Tree} {r : Report} (h : s.IsInStep) (hlog : s.dispatcher.board.Logged log)
    (hrow : Ledger.get? e s.dispatcher.ledger = some row)
    (hfollows : Follows e tree.plan first s.dispatcher.board.tasks.values) (htaken : s.Accepts r)
    (hid : r.id ∈ s.dispatcher.board.idsOf e) :
    match r.errorText? with
    | some text => s.EndsBy r e row (.failed r.result text)
    | none =>
      if (s.dispatcher.board.reportsOn log e).length + 1 = tree.plan.size then
        s.EndsBy r e row (.done r.result) ∧ r.id = first + (tree.plan.size - 1 : Nat) ∧
          ∀ id ∈ s.dispatcher.board.idsOf e, id ≠ r.id →
            ∃ r' ∈ s.dispatcher.board.reportsOn log e, r'.id = id
      else s.GoesOn r e row := by
  have hserved := h.served
  obtain ⟨t, ht, hs, rfl⟩ := exists_computing_of_mem_idsOf h htaken hid
  have hdecided := follows_verdict h ht hs hrow
  have hlength : (s.dispatcher.board.idsOf t.expressionId).length = tree.plan.size := by
    rw [Board.idsOf_of_follows h.coherent hfollows, List.length_map, List.length_range]
  cases herror : r.errorText? with
  | some text =>
    rw [Board.verdict?_of_error herror] at hdecided
    exact hdecided
  | none =>
    have hiff := hlog.none_left_iff hserved ht
    rw [hlog.verdict?_eq hserved ht herror, hlength] at hdecided
    rw [hlength] at hiff
    by_cases hall : (s.dispatcher.board.reportsOn log t.expressionId).length + 1 = tree.plan.size
    · rw [if_pos hall] at hdecided
      have hlast := hiff.2 hall
      simp only [if_pos hall]
      exact ⟨hdecided, Board.id_of_last hserved hfollows ht hs hlast, fun id hid' hne =>
        hlog.exists_report_of_last hserved ht hs hlast hid' hne⟩
    · rw [if_neg hall] at hdecided
      simp only [if_neg hall]
      exact hdecided

/-- Whatever is reported and whichever calls are refused. The tasks of a live expression
are those of the nodes of its plan. The reports that were taken on them brought no error,
one value for each task, and not yet for all. A task that goes out has in the place of
each reference the value that was reported. A report with an error ends the expression.
The value that makes the reports as many as the tasks ends it too: it is the one of the
root, and all the other tasks have theirs. Nothing else ends the row of a formula with
an operator. -/
theorem completion_exact (hvalid : LawfulLedger.Valid before) (qs : List Request) :
    let s := (start timings before).serve qs
    let d := s.dispatcher
    (∀ e, d.board.isLive e = true → ∃ (row : Expression) (plan : Plan) (first : Int),
      Ledger.get? e d.ledger = some row ∧ row.isFinished = false ∧
      Plan.ofFormula row.text = .ok plan ∧ 0 < plan.size ∧
      plan.root = .node (plan.size - 1) ∧
      d.board.idsOf e = (List.range plan.size).map (fun i : Nat => first + i) ∧
      let mine := d.board.reportsOn ((start timings before).taken qs) e
      (∀ r ∈ mine, r.errorText? = none) ∧ (mine.map (·.id)).Nodup ∧ mine.length < plan.size ∧
      (∀ t, d.claim.1 = .ok t → t.expressionId = e →
        ∃ i n, t.id = first + (i : Nat) ∧ plan.nodes[i]? = some n ∧ t.operator = n.operator ∧
          ∀ side, match n.source side with
            | .literal text => t.operand side = .literal text
            | .node j => ∃ r ∈ mine, r.id = first + j ∧
                t.operand side = .literal r.result.sixPlaces) ∧
      ∀ r, s.Accepts r → r.id ∈ d.board.idsOf e →
        match r.errorText? with
        | some text => s.EndsBy r e row (.failed r.result text)
        | none =>
          if mine.length + 1 = plan.size then
            s.EndsBy r e row (.done r.result) ∧ r.id = first + (plan.size - 1 : Nat) ∧
              ∀ id ∈ d.board.idsOf e, id ≠ r.id → ∃ r' ∈ mine, r'.id = id
          else s.GoesOn r e row) ∧
    (∀ t, d.claim.1 = .ok t → d.board.isLive t.expressionId = true) ∧
    ∀ e row plan, Ledger.get? e d.ledger = some row → row.isFinished = false →
      Plan.ofFormula row.text = .ok plan → 0 < plan.size →
      ∀ q row', Ledger.get? e (s.step q).dispatcher.ledger = some row' →
        row'.isFinished = true →
        ∃ r, q = .report r ∧ s.Accepts r ∧ r.id ∈ d.board.idsOf e := by
  intro s d
  have hstart : (start timings before).IsInStep := isInStep_start hvalid
  have hcharted : s.IsCharted := isCharted_serve (isCharted_start hvalid) qs
  have hin : s.IsInStep := hcharted.inStep
  have hlogged := logged_serve hstart Board.logged_empty qs
  rw [List.nil_append] at hlogged
  have hlog : d.board.Logged ((start timings before).taken qs) := hlogged
  generalize (start timings before).taken qs = log at hlog
  have hserved : d.board.Served := hin.served
  have hb := hserved.reachable.coherent
  have hclaimed : ∀ t, d.claim.1 = .ok t →
      ∃ u, d.board.peek? = some u ∧ t = { u with status := .computing } := fun t ht => by
    have hclaims := claims hin
    rw [ht] at hclaims
    obtain ⟨u, hpeek, heq, -⟩ := hclaims.exists_next
    exact ⟨u, hpeek, heq⟩
  refine ⟨fun e he => ?_, fun t ht => ?_, fun e row plan hrow hopen hplan hsize q row' hrow' hf =>
    exists_report_of_finished hin hrow hopen hplan hsize hrow' hf⟩
  · obtain ⟨row, tree, first, hopen, hfollows⟩ := hcharted.followed e he
    have hids := Board.idsOf_of_follows hb hfollows
    have hlength : (d.board.idsOf e).length = tree.plan.size := by
      rw [hids, List.length_map, List.length_range]
    obtain ⟨t, ht, hte⟩ := (Board.isLive_iff_exists_mem hb e).1 he
    obtain ⟨i, hi, -⟩ := hfollows.mem_id ht hte
    have hsize : 0 < tree.plan.size := Nat.zero_lt_of_lt hi
    refine ⟨row, tree.plan, first, hopen.recorded, hopen.isOpen, hopen.plan, hsize,
      Tree.root_plan hsize, hids, fun r hr => hlog.errorText?_of_mem hb hr, hlog.nodup_reportsOn e,
      ?_, fun u hu hue => ?_, fun r htaken hid => ?_⟩
    · have hget := (Board.mem_tasks_iff hb).1 ht
      have hadd := hlog.lacking_add hserved hget
      have hpos := Board.lacking_pos hserved hget
      rw [hte, hlength] at hadd
      rw [hte] at hpos
      omega
    · obtain ⟨next, hpeek, rfl⟩ := hclaimed u hu
      subst hue
      exact hlog.operands_of_peek? (t := next) hserved hfollows hpeek
    · exact report_decides hin hlog hopen.recorded hfollows htaken hid
  · obtain ⟨u, hpeek, rfl⟩ := hclaimed t ht
    exact hb.isLive_of_get? (t := u) (Board.get?_of_peek? hb hpeek)

/-- Whatever values were reported on the sums, the value reported on the product is that
of the expression. -/
theorem completion_exact_product :
    let requests : List Request := [.submit "(1+2)*(3+4)" 1, .claim, .claim,
      .report (.success 2 (.ofInt 70)), .report (.success 1 (.ofInt 30)), .claim]
    let s := (start {} ({} : MemoryLedger)).serve requests
    let r := Report.success 3 (.ofInt 5)
    (s.dispatcher.board.reportsOn ((start {} ({} : MemoryLedger)).taken requests) 1).length = 2 ∧
      ∃ row, Ledger.get? 1 s.dispatcher.ledger = some row ∧ row.isFinished = false ∧
        s.EndsBy r 1 row (.done r.result) := by
  intro requests s r
  have hempty : LawfulLedger.Valid ({} : MemoryLedger) := fun _ _ h => nomatch h
  have hlive : s.dispatcher.board.isLive 1 = true := by decide +kernel
  have hids : s.dispatcher.board.idsOf 1 = [1, 2, 3] := by decide +kernel
  have htaken : s.Accepts r := by
    have hanswer : (s.dispatcher.report r).1 = .ok () := by decide +kernel
    intro err
    rw [hanswer]
    exact nofun
  have hmine : (s.dispatcher.board.reportsOn
      ((start {} ({} : MemoryLedger)).taken requests) 1).length = 2 := by decide +kernel
  have hs : s = (start {} ({} : MemoryLedger)).serve requests := rfl
  obtain ⟨hexpressions, -, -⟩ := @completion_exact _ _ _ ({} : MemoryLedger) {} hempty requests
  rw [← hs] at hexpressions
  obtain ⟨row, plan, first, hrow, hopen, -, -, -, hrange, -, -, -, -, hreports⟩ :=
    hexpressions 1 hlive
  have hsize : plan.size = 3 := by
    have hlength := congrArg List.length hrange
    rw [hids, List.length_map, List.length_range] at hlength
    exact hlength.symm
  have hdecides := hreports r htaken (by rw [hids]; decide)
  have hvalue : r.errorText? = none := rfl
  rw [hsize, hmine] at hdecides
  simp only [hvalue, if_true] at hdecides
  exact ⟨hmine, row, hrow, hopen, hdecides.1⟩

end Session

end Reckoner
