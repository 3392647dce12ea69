/-
Reckoner.Proofs.Dispatcher.Recovery — what a recovery comes to.

A recovery goes through the unfinished rows one by one. What it does with one of
them changes neither the row nor the tasks of any other, so each meets the fate
that it has at the start (`Board.fate`). When no call has been refused, every row
has been dealt with, and the live expressions are exactly the unfinished rows
(`recover_settles_every_row`).

  1. One expression
  2. Several expressions
  3. The recovery
-/
import Reckoner.Proofs.Board.Replay
import Reckoner.Proofs.Dispatcher.Run

namespace Reckoner

/-- The number of expressions that have been dealt with. -/
def RecoveryReport.total (counts : RecoveryReport) : Nat :=
  counts.replayed + counts.rejected + counts.skipped

variable {σ : Type} [Ledger σ] [LawfulLedger σ]

namespace Dispatcher

variable {d d' : Dispatcher σ} {counts : RecoveryReport} {e : Expression} {es : List Expression}

/-! ## 1. One expression -/

/-- An expression has been dealt with. -/
structure TakesUp (d : Dispatcher σ) (e : Expression) (d' : Dispatcher σ) : Prop where
  timings : d'.timings = d.timings
  board : d'.board = d.board.takeUp d.timings e
  row : Ledger.get? e.id d'.ledger = some ((d.board.fate e).row (LawfulLedger.keep σ) e)

/-- A formula that is taken up has ended, or its tasks have come on the board. -/
theorem Enqueues.takesUp {plan : Plan} (h : Enqueues d e.id plan (.ok ()) d')
    (hlive : d.board.isLive e.id = false) (hplan : Plan.ofFormula e.text = .ok plan)
    (hfound : Ledger.get? e.id d.ledger = some e) (hopen : e.isFinished = false) :
    TakesUp d e d' := by
  cases h with
  | ended constant found sets =>
    rw [hfound] at found
    cases found
    have hfate := Board.fate_of_constant hlive hplan constant
    refine ⟨rfl, (Board.takeUp_of_none (by rw [hfate]; rfl)).symm, ?_⟩
    rw [sets.get?_self, hfate, Expression.endedWith_of_unfinished hopen]
    rfl
  | admitted operator =>
    have hfate := Board.fate_eq_replayed_iff.2 ⟨hlive, hplan, operator⟩
    refine ⟨rfl, (Board.takeUp_of_some (by rw [hfate]; rfl)).symm, ?_⟩
    rw [hfate]
    exact hfound

theorem RecoversOne.takesUp {counts' : RecoveryReport}
    (h : RecoversOne d counts e (.ok counts') d') (hfound : Ledger.get? e.id d.ledger = some e)
    (hopen : e.isFinished = false) : TakesUp d e d' ∧ counts'.total = counts.total + 1 := by
  cases h with
  | skipped live =>
    have hfate := Board.fate_of_live live
    refine ⟨⟨rfl, (Board.takeUp_of_none (by rw [hfate]; rfl)).symm, ?_⟩, rfl⟩
    rw [hfate]
    exact hfound
  | replayed notLive formula enqueues =>
    refine ⟨enqueues.takesUp notLive formula hfound hopen, ?_⟩
    simp only [RecoveryReport.total]
    omega
  | rejected notLive noFormula found sets =>
    rw [hfound] at found
    cases found
    have hfate := Board.fate_of_error notLive noFormula
    refine ⟨⟨rfl, (Board.takeUp_of_none (by rw [hfate]; rfl)).symm, ?_⟩, ?_⟩
    · rw [sets.get?_self, hfate, Expression.endedWith_of_unfinished hopen]
      simp [Fate.row, Outcome.status, Outcome.result, Outcome.error?, LawfulLedger.keep_zero]
    · simp only [RecoveryReport.total]
      omega

/-! ## 2. Several expressions -/

/-- Some expressions have been dealt with in turn. -/
structure TakesUpAll (d : Dispatcher σ) (es : List Expression) (d' : Dispatcher σ) : Prop where
  board : d'.board = d.board.takeUpAll d.timings es
  row : ∀ e ∈ es, Ledger.get? e.id d'.ledger = some ((d.board.fate e).row (LawfulLedger.keep σ) e)
  others : ∀ id ∉ es.map (·.id), Ledger.get? id d'.ledger = Ledger.get? id d.ledger

/-- The rest finds the board and the rows of its own expressions as they were. -/
theorem TakesUp.cons {d'' : Dispatcher σ} (h : TakesUp d e d')
    (hothers : ∀ id, id ≠ e.id → Ledger.get? id d'.ledger = Ledger.get? id d.ledger)
    (hrest : TakesUpAll d' es d'') (hout : e.id ∉ es.map (·.id)) :
    TakesUpAll d (e :: es) d'' where
  board := by rw [hrest.board, h.board, h.timings, Board.takeUpAll_cons]
  row f hf := by
    rcases List.mem_cons.1 hf with rfl | hf
    · rw [hrest.others f.id hout, h.row]
    · have hne : f.id ≠ e.id := fun hid => hout (List.mem_map.2 ⟨f, hf, hid⟩)
      rw [hrest.row f hf, h.board, Board.fate_takeUp_of_ne hne]
  others id hid := by
    rw [List.map_cons, List.mem_cons, not_or] at hid
    rw [hrest.others id hid.2, hothers id hid.1]

theorem RecoversEach.takesUpAll {answer : Except DispatchError RecoveryReport}
    (h : RecoversEach d counts es answer d') {counts' : RecoveryReport}
    (hanswer : answer = .ok counts') (hnodup : (es.map (·.id)).Nodup) :
    TakesUpAll d es d' ∧ counts'.total = counts.total + es.length := by
  induction h with
  | done =>
    cases hanswer
    exact ⟨⟨rfl, nofun, fun _ _ => rfl⟩, rfl⟩
  | stopped valid found isOpen first => cases hanswer
  | next valid found isOpen first rest ih =>
    obtain ⟨hout, hnodup⟩ := List.nodup_cons.1 hnodup
    obtain ⟨hfirst, hone⟩ := first.takesUp found isOpen
    obtain ⟨hrest, hmany⟩ := ih hanswer hnodup
    refine ⟨hfirst.cons (fun id hid => first.get?_of_ne hid) hrest hout, ?_⟩
    rw [hmany, hone, List.length_cons]
    omega

/-! ## 3. The recovery -/

omit [LawfulLedger σ] in
/-- These expressions are the unfinished rows, lowest id first. -/
structure AreUnfinished (es : List Expression) (s : σ) : Prop where
  mem_iff : ∀ e, e ∈ es ↔ Ledger.get? e.id s = some e ∧ e.isFinished = false
  ascending : es.Pairwise fun e f => e.id < f.id

omit [LawfulLedger σ] in
theorem AreUnfinished.nodup {s : σ} (h : AreUnfinished es s) : (es.map (·.id)).Nodup :=
  List.pairwise_map.2 (h.ascending.imp Int.ne_of_lt)

omit [LawfulLedger σ] in
theorem AreUnfinished.unique {s : σ} {fs : List Expression} (h : AreUnfinished es s)
    (h' : AreUnfinished fs s) : es = fs :=
  h.ascending.eq_of_mem_iff h'.ascending fun e => (h.mem_iff e).trans (h'.mem_iff e).symm

omit [LawfulLedger σ] in
/-- The ids of the first expressions differ from one another and from those behind. -/
theorem AreUnfinished.split {s : σ} {pre post : List Expression}
    (h : AreUnfinished (pre ++ post) s) :
    (pre.map (·.id)).Nodup ∧ ∀ e ∈ post, e.id ∉ pre.map (·.id) := by
  have hnodup := h.nodup
  rw [List.map_append, List.nodup_append] at hnodup
  obtain ⟨hpre, -, hne⟩ := hnodup
  exact ⟨hpre, fun e he hid => hne e.id hid e.id (List.mem_map_of_mem he) rfl⟩

/-- It is no matter what else a ledger of the same rows keeps. -/
theorem TakesUpAll.of_sameRows {s : σ} (h : TakesUpAll { d with ledger := s } es d')
    (hsame : Ledger.SameRows d.ledger s) : TakesUpAll d es d' where
  board := h.board
  row := h.row
  others id hid := (h.others id hid).trans (hsame id)

/-- A recovery that is not refused goes through every unfinished row. -/
theorem exists_takesUpAll [AscendingLedger σ] (hvalid : LawfulLedger.Valid d.ledger)
    (hrecover : d.recover = (.ok counts, d')) :
    ∃ es, AreUnfinished es d.ledger ∧ TakesUpAll d es d' ∧ counts.total = es.length := by
  have hrecovers := recovers hvalid
  rw [hrecover] at hrecovers
  cases hrecovers with
  | @recovered es s counts d' ignores all each listed =>
    have hes : AreUnfinished es d.ledger :=
      ⟨all, AscendingLedger.unfinished_ascending hvalid listed⟩
    obtain ⟨htakesUp, htotal⟩ := each.takesUpAll rfl hes.nodup
    have hall := htakesUp.of_sameRows ignores.same
    refine ⟨es, hes, ⟨hall.board, hall.row, hall.others⟩, ?_⟩
    rw [htotal]
    exact Nat.zero_add _

theorem TakesUpAll.hasMet (h : TakesUpAll d es d') (hb : d.board.Coherent)
    (hes : AreUnfinished es d.ledger) (he : e ∈ es) :
    d.board.HasMet d'.board d.timings e (d.board.fate e) := by
  rw [h.board]
  exact Board.hasMet_takeUpAll hb hes.nodup he

/-- An expression that is live has not ended: it was live before, or it has been
replayed. -/
theorem TakesUpAll.exists_open (h : TakesUpAll d es d') (hes : AreUnfinished es d.ledger)
    (hcovered : ∀ id, d.board.isLive id = true →
      ∃ row, Ledger.get? id d.ledger = some row ∧ row.isFinished = false)
    {id : Int} (hlive : d'.board.isLive id = true) :
    ∃ row, Ledger.get? id d'.ledger = some row ∧ row.isFinished = false := by
  by_cases hid : id ∈ es.map (·.id)
  · obtain ⟨e, he, rfl⟩ := List.mem_map.1 hid
    rw [h.board, Board.isLive_takeUpAll_of_mem hes.nodup he] at hlive
    have hrow := h.row e he
    rw [Fate.row_of_isOpen hlive] at hrow
    exact ⟨e, hrow, ((hes.mem_iff e).1 he).2⟩
  · rw [h.board, Board.isLive_takeUpAll_of_notMem hid] at hlive
    rw [h.others id hid]
    exact hcovered id hlive

/-- An expression that has not ended is live: it was dealt with, and is not over. -/
theorem TakesUpAll.isLive_of_open (h : TakesUpAll d es d') (hvalid : LawfulLedger.Valid d.ledger)
    (hes : AreUnfinished es d.ledger) {id : Int} {row : Expression}
    (hrow : Ledger.get? id d'.ledger = some row) (hopen : row.isFinished = false) :
    d'.board.isLive id = true := by
  by_cases hid : id ∈ es.map (·.id)
  · obtain ⟨e, he, rfl⟩ := List.mem_map.1 hid
    rw [h.board, Board.isLive_takeUpAll_of_mem hes.nodup he, ← Bool.not_eq_false]
    intro hfate
    rw [h.row e he] at hrow
    cases hrow
    rw [Fate.isFinished_row hfate] at hopen
    cases hopen
  · rw [h.others id hid] at hrow
    have hrowid := LawfulLedger.get?_id hvalid hrow
    subst hrowid
    exact absurd (List.mem_map_of_mem ((hes.mem_iff row).2 ⟨hrow, hopen⟩)) hid

/-- The tasks that a recovery puts on the board, plan after plan. -/
def replayedTasks (d : Dispatcher σ) (es : List Expression) : List Task :=
  tasksInTurn d.timings d.board.nextId (d.board.replays es)

/-- What has come of a recovery that went through these expressions. -/
structure Recovery (d : Dispatcher σ) (es : List Expression) (counts : RecoveryReport)
    (d' : Dispatcher σ) : Prop where
  unfinished : AreUnfinished es d.ledger
  counted : counts.replayed + counts.rejected + counts.skipped = es.length
  /-- What is live afterwards is exactly what has not ended then. -/
  live_iff : ∀ id, d'.board.isLive id = true ↔
    ∃ row, Ledger.get? id d'.ledger = some row ∧ row.isFinished = false
  /-- The old tasks have not changed, and the new ones stand behind them. -/
  tasks : d'.board.tasks.values = d.board.tasks.values ++ d.replayedTasks es
  pending : ∀ t ∈ d.replayedTasks es, t.status = .pending
  consecutive : ∀ (i : Nat) t, (d.replayedTasks es)[i]? = some t → t.id = d.board.nextId + i
  /-- The tasks of each expression are those of its fate, and so is its row. -/
  hasMet : ∀ e ∈ es, d.board.HasMet d'.board d.timings e (d.board.fate e)
  row : ∀ e ∈ es, Ledger.get? e.id d'.ledger = some ((d.board.fate e).row (LawfulLedger.keep σ) e)
  /-- No other row has changed. -/
  others : ∀ id, (∀ row, Ledger.get? id d.ledger = some row → row.isFinished = true) →
    Ledger.get? id d'.ledger = Ledger.get? id d.ledger

/-- If no call is refused and each live expression has an unfinished row, a recovery
takes up every unfinished row, whatever its text, and touches nothing else. -/
theorem recover_takes_up_every_row [AscendingLedger σ] (hvalid : LawfulLedger.Valid d.ledger)
    (hboard : d.board.Reachable)
    (hcovered : ∀ id, d.board.isLive id = true →
      ∃ row, Ledger.get? id d.ledger = some row ∧ row.isFinished = false)
    (hrecover : d.recover = (.ok counts, d')) : ∃ es, Recovery d es counts d' := by
  obtain ⟨es, hes, htakesUp, htotal⟩ := exists_takesUpAll hvalid hrecover
  have hb := hboard.coherent
  refine ⟨es, {
    unfinished := hes
    counted := htotal
    live_iff := fun id => ⟨htakesUp.exists_open hes hcovered, fun ⟨row, hrow, hopen⟩ =>
      htakesUp.isLive_of_open hvalid hes hrow hopen⟩
    tasks := by rw [htakesUp.board, Board.values_takeUpAll hb hes.nodup, replayedTasks]
    pending := fun t ht => status_tasksInTurn ht
    consecutive := fun i t ht => id_tasksInTurn ht
    hasMet := fun e he => htakesUp.hasMet hb hes he
    row := htakesUp.row
    others := fun id hended => htakesUp.others id ?other }⟩
  case other =>
    intro hid
    obtain ⟨e, he, rfl⟩ := List.mem_map.1 hid
    obtain ⟨hrow, hopen⟩ := (hes.mem_iff e).1 he
    rw [hended e hrow] at hopen
    cases hopen

/-- One row has ended, one is no formula, one is a number, two come on the board, and
the last one is live already. -/
theorem recover_takes_up_every_row_mixed :
    let ended : Expression := { id := 2, text := "9-9", status := .done, owner := 1 }
    let rows : List Expression := [ended, { id := 3, text := "4+5*6", owner := 1 },
      { id := 5, text := "7", owner := 1 }, { id := 6, text := "8+", owner := 1 },
      { id := 7, text := "1-2", status := .computing, owner := 1 }]
    let ledger := rows.foldr MemoryLedger.restore {}
    let s := (Session.start {} ledger).run [.request (.submit "2*3" 1)]
    let d' := s.dispatcher.recover.2
    d'.board.tasks.values.map (fun t => (t.id, t.expressionId)) = [(1, 8), (2, 3), (3, 3), (4, 7)] ∧
      ∃ es, Recovery s.dispatcher es ⟨3, 1, 1⟩ d' := by
  intro ended rows ledger s d'
  have hvalid : LawfulLedger.Valid ledger := by
    iterate 5 refine MemoryLedger.restore_inOrder ?_ _
    exact nofun
  have hanswer : s.dispatcher.recover.1 = .ok ⟨3, 1, 1⟩ := by decide +kernel
  have htasks : d'.board.tasks.values.map (fun t => (t.id, t.expressionId)) =
      [(1, 8), (2, 3), (3, 3), (4, 7)] := by decide +kernel
  have hs : s = (Session.start {} ledger).run [.request (.submit "2*3" 1)] := rfl
  have hd' : d' = s.dispatcher.recover.2 := rfl
  have h : s.IsInStep := by
    rw [hs]
    exact Session.isInStep_run (Session.isInStep_start hvalid) _
  clear_value s d'
  refine ⟨htasks, recover_takes_up_every_row h.valid h.served.reachable (fun id hlive => ?_) ?_⟩
  · obtain ⟨row, hrow, hcovers⟩ := h.covered id hlive
    exact ⟨row, hrow, hcovers.isOpen⟩
  · rw [hd', ← hanswer]

end Dispatcher

end Reckoner
