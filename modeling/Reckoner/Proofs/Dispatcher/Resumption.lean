/-
Reckoner.Proofs.Dispatcher.Resumption — recoveries that are repeated and resumed.

A recovery that a refused call stops has dealt with the first of the unfinished
rows and left the rest as they were. Of those it has dealt with, the ones that
came on the board are skipped by the next recovery and the others have ended, so
the next one in effect goes on where the last one stopped
(`TakesUpAll.resume`). However often it is stopped, the board and the rows come
out as they would have at once. After a recovery that was not stopped, another
one finds nothing to do (`recovery_resumes`).

  1. A recovery after a recovery
  2. A recovery that is stopped
  3. What is left of a recovery
  4. Repeating and resuming
-/
import Reckoner.Proofs.Dispatcher.Recovery
import Reckoner.Proofs.Dispatcher.Refusal
import Reckoner.Proofs.Dispatcher.Willing

namespace Reckoner

namespace Dispatcher

variable {σ : Type} [Ledger σ] [LawfulLedger σ] {d d' d'' : Dispatcher σ} {e : Expression}
  {es pre post : List Expression}

/-! ## 1. A recovery after a recovery -/

omit [LawfulLedger σ] in
/-- Expressions that are live already are counted, and that is all. -/
theorem recoverEach_of_live (h : ∀ e ∈ es, d.board.isLive e.id = true) (counts : RecoveryReport) :
    d.recoverEach counts es = (.ok { counts with skipped := counts.skipped + es.length }, d) := by
  induction es generalizing counts with
  | nil => rfl
  | cons e es ih =>
    have hfirst : d.recoverOne counts e = (.ok { counts with skipped := counts.skipped + 1 }, d) :=
      if_pos (h e List.mem_cons_self)
    rw [recoverEach, hfirst]
    simp only
    rw [ih (fun f hf => h f (List.mem_cons_of_mem e hf)), List.length_cons,
      Nat.add_right_comm, Nat.add_assoc]

/-- Each live expression has a row that has not ended. -/
def Covered (d : Dispatcher σ) : Prop :=
  ∀ id, d.board.isLive id = true →
    ∃ row, Ledger.get? id d.ledger = some row ∧ row.isFinished = false

theorem covered_of_isInStep {s : Session σ} (h : s.IsInStep) : s.dispatcher.Covered := by
  intro id hlive
  obtain ⟨row, hrow, hcovers⟩ := h.covered id hlive
  exact ⟨row, hrow, hcovers.isOpen⟩

/-- Where the unfinished rows are those of the live expressions, a recovery skips them. -/
theorem recover_of_live (hvalid : LawfulLedger.Valid d.ledger) (hcovered : d.Covered)
    (hlive : ∀ id row, Ledger.get? id d.ledger = some row → row.isFinished = false →
      d.board.isLive id = true)
    {counts : RecoveryReport} (hrecover : d.recover = (.ok counts, d')) :
    counts = ⟨0, 0, d.board.load.expressions⟩ ∧ d'.board = d.board ∧
      Ledger.SameRows d.ledger d'.ledger := by
  rw [recover] at hrecover
  cases hcall : Ledger.unfinished d.ledger with
  | mk answer s =>
    rw [hcall] at hrecover
    cases answer with
    | error err => cases hrecover
    | ok es =>
      obtain ⟨-, hsame, hnodup, hmem⟩ := LawfulLedger.unfinished_ok hvalid hcall
      have hall : ∀ e ∈ es, d.board.isLive e.id = true := fun e he => by
        obtain ⟨hrow, hopen⟩ := (hmem e).1 he
        exact hlive e.id e hrow hopen
      have hskipped := recoverEach_of_live (d := { d with ledger := s }) hall {}
      simp only [hskipped] at hrecover
      cases hrecover
      have hlength : d.board.load.expressions = (es.map (·.id)).length := by
        refine IdMap.size_eq_length hnodup fun id => ⟨fun hid => ?_, fun hid => ?_⟩
        · obtain ⟨row, hrow, hopen⟩ := hcovered id hid
          have hrowid := LawfulLedger.get?_id hvalid hrow
          subst hrowid
          exact List.mem_map_of_mem ((hmem row).2 ⟨hrow, hopen⟩)
        · obtain ⟨e, he, rfl⟩ := List.mem_map.1 hid
          exact hall e he
      rw [hlength, List.length_map, Nat.zero_add]
      exact ⟨rfl, rfl, hsame⟩

/-! ## 2. A recovery that is stopped -/

/-- Nothing has been dealt with. -/
theorem TakesUpAll.of_nothing {s : σ} (hsame : Ledger.SameRows d.ledger s) :
    TakesUpAll d [] { d with ledger := s } where
  board := rfl
  row _ he := absurd he List.not_mem_nil
  others id _ := hsame id

/-- A refused call stops a recovery between two expressions. -/
theorem RecoversEach.exists_takenUp {counts : RecoveryReport}
    {answer : Except DispatchError RecoveryReport} (h : RecoversEach d counts es answer d')
    {err : DispatchError} (hanswer : answer = .error err) (hnodup : (es.map (·.id)).Nodup) :
    ∃ pre post, es = pre ++ post ∧ TakesUpAll d pre d' ∧ d'.timings = d.timings ∧
      LawfulLedger.Valid d'.ledger := by
  induction h with
  | done => cases hanswer
  | @stopped d d' counts e es err valid found isOpen first =>
    obtain ⟨s, hignores, rfl⟩ := first.ignores_of_error
    exact ⟨[], e :: es, rfl, .of_nothing hignores.same, rfl, hignores.valid⟩
  | @next d d' d'' counts counts' e es answer valid found isOpen first rest ih =>
    obtain ⟨hout, hnodup⟩ := List.nodup_cons.1 hnodup
    obtain ⟨pre, post, rfl, hpre, htimings, hvalid⟩ := ih hanswer hnodup
    obtain ⟨hfirst, -⟩ := first.takesUp found isOpen
    rw [List.map_append, List.mem_append, not_or] at hout
    refine ⟨e :: pre, post, rfl, ?_, htimings.trans hfirst.timings, hvalid⟩
    exact hfirst.cons (fun id hid => first.get?_of_ne hid) hpre hout.1

/-- A recovery that is stopped has dealt with the first of the unfinished rows. -/
theorem exists_takenUp_of_error [AscendingLedger σ] (hvalid : LawfulLedger.Valid d.ledger)
    (hes : AreUnfinished es d.ledger) {err : DispatchError} (h : d.recover.1 = .error err) :
    ∃ pre post, es = pre ++ post ∧ TakesUpAll d pre d.recover.2 ∧
      d.recover.2.timings = d.timings ∧ LawfulLedger.Valid d.recover.2.ledger := by
  rw [recover] at h ⊢
  cases hcall : Ledger.unfinished d.ledger with
  | mk answer s =>
    simp only [hcall] at h ⊢
    cases answer with
    | error refusal =>
      obtain ⟨hvalid', hsame⟩ := LawfulLedger.unfinished_error hvalid hcall
      exact ⟨[], es, rfl, .of_nothing hsame, rfl, hvalid'⟩
    | ok fs =>
      obtain ⟨hvalid', hsame, hnodup, hmem⟩ := LawfulLedger.unfinished_ok hvalid hcall
      have hfs : AreUnfinished fs d.ledger :=
        ⟨hmem, AscendingLedger.unfinished_ascending hvalid hcall⟩
      cases hes.unique hfs
      have heach := recoversEach (d := { d with ledger := s }) hvalid' {} hnodup fun e he => by
        obtain ⟨hrow, hopen⟩ := (hmem e).1 he
        exact ⟨(hsame e.id).trans hrow, hopen⟩
      cases hcalls : recoverEach { d with ledger := s } {} es with
      | mk answer d' =>
        rw [hcalls] at heach
        simp only [hcalls] at h ⊢
        cases answer with
        | ok counts => cases h
        | error err' =>
          obtain ⟨pre, post, hsplit, hpre, htimings, hvalid''⟩ :=
            heach.exists_takenUp rfl hnodup
          exact ⟨pre, post, hsplit, hpre.of_sameRows hsame, htimings, hvalid''⟩

/-! ## 3. What is left of a recovery -/

theorem TakesUpAll.areUnfinished_leftOf (h : TakesUpAll d pre d')
    (hes : AreUnfinished (pre ++ post) d.ledger) :
    AreUnfinished (d.board.leftOf pre post) d'.ledger where
  ascending := hes.ascending.sublist (d.board.leftOf_sublist pre post)
  mem_iff e := by
    rw [Board.leftOf, List.mem_append, List.mem_filter]
    constructor
    · rintro (⟨he, hfate⟩ | he)
      · have hrow := h.row e he
        rw [Fate.row_of_isOpen hfate] at hrow
        exact ⟨hrow, ((hes.mem_iff e).1 (List.mem_append_left _ he)).2⟩
      · rw [h.others e.id (hes.split.2 e he)]
        exact (hes.mem_iff e).1 (List.mem_append_right _ he)
    · rintro ⟨hrow, hopen⟩
      by_cases hid : e.id ∈ pre.map (·.id)
      · -- A row that has not ended is the one that was found.
        obtain ⟨f, hf, hfid⟩ := List.mem_map.1 hid
        rw [← hfid, h.row f hf, Option.some.injEq] at hrow
        cases hfate : (d.board.fate f).isOpen with
        | true =>
          rw [Fate.row_of_isOpen hfate] at hrow
          exact .inl ⟨hrow ▸ hf, hrow ▸ hfate⟩
        | false =>
          rw [← hrow, Fate.isFinished_row hfate] at hopen
          cases hopen
      · rw [h.others e.id hid] at hrow
        have hmem := (hes.mem_iff e).2 ⟨hrow, hopen⟩
        exact .inr ((List.mem_append.1 hmem).resolve_left fun he => hid (List.mem_map_of_mem he))

/-- To deal with what is left is to deal with everything. What had come on the board is
skipped, and what had ended stays as it is. -/
theorem TakesUpAll.resume (h : TakesUpAll d pre d') (htimings : d'.timings = d.timings)
    (hes : AreUnfinished (pre ++ post) d.ledger)
    (hrest : TakesUpAll d' (d.board.leftOf pre post) d'') : TakesUpAll d (pre ++ post) d'' where
  board := by
    have hlive : ∀ e ∈ pre.filter fun e => (d.board.fate e).isOpen,
        d'.board.isLive e.id = true := fun e he => by
      obtain ⟨he, hfate⟩ := List.mem_filter.1 he
      rw [h.board, Board.isLive_takeUpAll_of_mem hes.split.1 he, hfate]
    rw [hrest.board, Board.leftOf, Board.takeUpAll_append, Board.takeUpAll_of_live hlive, h.board,
      htimings, Board.takeUpAll_append]
  row e he := by
    rcases List.mem_append.1 he with hpre | hpost
    · cases hfate : (d.board.fate e).isOpen with
      | true =>
        have hlive : d'.board.isLive e.id = true := by
          rw [h.board, Board.isLive_takeUpAll_of_mem hes.split.1 hpre, hfate]
        have hleft : e ∈ d.board.leftOf pre post :=
          List.mem_append_left _ (List.mem_filter.2 ⟨hpre, hfate⟩)
        rw [hrest.row e hleft, Board.fate_of_live hlive, Fate.row_of_isOpen hfate]
        rfl
      | false =>
        have hout : e.id ∉ (d.board.leftOf pre post).map (·.id) := fun hmem => by
          obtain ⟨f, hf, hfid⟩ := List.mem_map.1 hmem
          obtain ⟨hrow, hopen⟩ := ((h.areUnfinished_leftOf hes).mem_iff f).1 hf
          rw [hfid, h.row e hpre, Option.some.injEq] at hrow
          rw [← hrow, Fate.isFinished_row hfate] at hopen
          cases hopen
        rw [hrest.others e.id hout, h.row e hpre]
    · have hout := hes.split.2 e hpost
      have hfate : d'.board.fate e = d.board.fate e := by
        refine Board.fate_congr ?_
        rw [h.board, Board.isLive_takeUpAll_of_notMem hout]
      rw [hrest.row e (List.mem_append_right _ hpost), hfate]
  others id hid := by
    have hleft : id ∉ (d.board.leftOf pre post).map (·.id) := fun hmem =>
      hid (((d.board.leftOf_sublist pre post).map _).subset hmem)
    rw [List.map_append, List.mem_append, not_or] at hid
    rw [hrest.others id hleft, h.others id hid.1]

/-- However often a recovery is stopped, some rows are left, and to deal with them is to
deal with everything. -/
theorem exists_left [AscendingLedger σ] (hvalid : LawfulLedger.Valid d.ledger)
    (hes : AreUnfinished es d.ledger) {n : Nat} (hrefused : d.RefusesTries recover n) :
    let dn := d.afterTries recover n
    LawfulLedger.Valid dn.ledger ∧
      ∃ rest, AreUnfinished rest dn.ledger ∧ ∀ d'', TakesUpAll dn rest d'' → TakesUpAll d es d'' := by
  intro dn
  induction n with
  | zero => exact ⟨hvalid, es, hes, fun _ => id⟩
  | succ n ih =>
    obtain ⟨hvalid', rest, hrest, hresume⟩ := ih fun k hk => hrefused k (Nat.lt_succ_of_lt hk)
    obtain ⟨err, herr⟩ := hrefused n (Nat.lt_succ_self n)
    obtain ⟨pre, post, rfl, hpre, hsame, hvalid''⟩ := exists_takenUp_of_error hvalid' hrest herr
    exact ⟨hvalid'', _, hpre.areUnfinished_leftOf hrest, fun d'' hd'' =>
      hresume d'' (hpre.resume hsame hrest hd'')⟩

/-! ## 4. Repeating and resuming -/

/-- The board and the rows are settled by the rows that are dealt with. -/
theorem TakesUpAll.unique (h : TakesUpAll d es d') (h' : TakesUpAll d es d'') :
    d''.board = d'.board ∧ Ledger.SameRows d'.ledger d''.ledger := by
  refine ⟨h'.board.trans h.board.symm, fun id => ?_⟩
  by_cases hid : id ∈ es.map (·.id)
  · obtain ⟨e, he, rfl⟩ := List.mem_map.1 hid
    rw [h'.row e he, h.row e he]
  · rw [h'.others id hid, h.others id hid]

theorem TakesUpAll.covered (h : TakesUpAll d es d') (hes : AreUnfinished es d.ledger)
    (hcovered : d.Covered) : d'.Covered :=
  fun _ hlive => h.exists_open hes hcovered hlive

section Faulty

/-- The dispatcher once its ledger refuses no more calls. -/
def withoutRefusals {τ : Type} (d : Dispatcher (FaultyLedger τ)) : Dispatcher (FaultyLedger τ) :=
  { d with ledger := d.ledger.withoutRefusals }

variable {τ : Type} [Ledger τ] [LawfulLedger τ] [AscendingLedger τ] [WillingLedger τ]
  {d : Dispatcher (FaultyLedger τ)}

omit [AscendingLedger τ] in
theorem recover_withoutRefusals (hvalid : LawfulLedger.Valid d.ledger) :
    ∃ counts d', d.withoutRefusals.recover = (.ok counts, d') :=
  recover_of_takesCalls (d := d.withoutRefusals) FaultyLedger.takesCalls_unrefusing hvalid
    d.ledger.unrefusing_withoutRefusals

/-- A recovery whose calls are taken deals with every unfinished row. -/
theorem exists_takesUpAll_withoutRefusals (hvalid : LawfulLedger.Valid d.ledger) :
    ∃ counts es, d.withoutRefusals.recover.1 = .ok counts ∧ AreUnfinished es d.ledger ∧
      TakesUpAll d es d.withoutRefusals.recover.2 := by
  have hvalid' : LawfulLedger.Valid d.withoutRefusals.ledger := hvalid
  obtain ⟨counts, d', hrecover⟩ := recover_withoutRefusals hvalid
  obtain ⟨es, hes, htakesUp, -⟩ := exists_takesUpAll hvalid' hrecover
  rw [hrecover]
  exact ⟨counts, es, rfl, ⟨hes.mem_iff, hes.ascending⟩,
    ⟨htakesUp.board, htakesUp.row, htakesUp.others⟩⟩

/-- Recoveries can be repeated and resumed, wherever each live expression has an
unfinished row. After one that was not refused, one whose calls are taken skips every
live expression and changes nothing. After any number that a refused call has stopped,
one whose calls are taken leaves the board and the rows that it would have left at once. -/
theorem recovery_resumes (hvalid : LawfulLedger.Valid d.ledger) (hcovered : d.Covered) :
    (∀ counts, d.recover.1 = .ok counts →
      let d' := d.recover.2.withoutRefusals
      d'.recover.1 = .ok ⟨0, 0, d'.board.load.expressions⟩ ∧ d'.recover.2.board = d'.board ∧
        Ledger.SameRows d'.ledger d'.recover.2.ledger) ∧
    ∀ n, d.RefusesTries recover n →
      let once := d.withoutRefusals.recover
      let last := (d.afterTries recover n).withoutRefusals.recover
      (∃ counts, once.1 = .ok counts) ∧ (∃ counts, last.1 = .ok counts) ∧
        last.2.board = once.2.board ∧ Ledger.SameRows once.2.ledger last.2.ledger := by
  refine ⟨fun counts hcounts => ?repeated, fun n hrefused => ?resumed⟩
  case repeated =>
    intro d'
    have hrecover : d.recover = (.ok counts, d.recover.2) := Prod.ext hcounts rfl
    obtain ⟨es, hes, htakesUp, -⟩ := exists_takesUpAll hvalid hrecover
    have hvalid' : LawfulLedger.Valid d'.ledger := (recovers hvalid).valid
    obtain ⟨counts', d'', hagain⟩ := recover_withoutRefusals (recovers hvalid).valid
    obtain ⟨hcounts', hboard, hrows⟩ := recover_of_live hvalid' (htakesUp.covered hes hcovered)
      (fun id row hrow hopen => htakesUp.isLive_of_open hvalid hes hrow hopen) hagain
    rw [hagain, hcounts']
    exact ⟨rfl, hboard, hrows⟩
  case resumed =>
    intro once last
    obtain ⟨counts, es, honce, hes, htakesUp⟩ := exists_takesUpAll_withoutRefusals hvalid
    obtain ⟨hvalid', rest, hrest, hresume⟩ := exists_left hvalid hes hrefused
    obtain ⟨counts', rest', hlast, hrest', htakesUp'⟩ := exists_takesUpAll_withoutRefusals hvalid'
    cases hrest.unique hrest'
    obtain ⟨hboard, hrows⟩ := htakesUp.unique (hresume _ htakesUp')
    exact ⟨⟨counts, honce⟩, ⟨counts', hlast⟩, hboard, hrows⟩

/-- Three recoveries are stopped: the first at once, the others at the row that is no
formula, with one formula on the board and one number ended. The next one goes on from
there, while the one without refusals does everything itself. -/
theorem recovery_resumes_after_three :
    let rows : List Expression := [{ id := 2, text := "9-9", status := .done, owner := 1 },
      { id := 3, text := "4+5*6", owner := 1 }, { id := 5, text := "7", owner := 1 },
      { id := 6, text := "8+", owner := 1 },
      { id := 7, text := "1-2", status := .computing, owner := 1 }]
    let ledger := ((FaultyLedger.ofLedger (rows.foldr MemoryLedger.restore {}) fun _ => "")
      |>.withRefusals .unfinished [true] |>.withRefusals .finish [false, true, true])
    let s := (Session.start {} ledger).run [.request (.submit "2*3" 1)]
    let d := s.dispatcher
    let once := d.withoutRefusals.recover
    let last := (d.afterTries recover 3).withoutRefusals.recover
    let again := once.2.withoutRefusals.recover
    d.RefusesTries recover 3 ∧ once.1 = .ok ⟨3, 1, 1⟩ ∧ last.1 = .ok ⟨1, 1, 2⟩ ∧
      last.2.board = once.2.board ∧ Ledger.SameRows once.2.ledger last.2.ledger ∧
      again.1 = .ok ⟨0, 0, once.2.board.load.expressions⟩ ∧ again.2.board = once.2.board := by
  intro rows ledger s d once last again
  have hvalid : LawfulLedger.Valid ledger := by
    show LawfulLedger.Valid (rows.foldr MemoryLedger.restore {})
    iterate 5 refine MemoryLedger.restore_inOrder ?_ _
    exact nofun
  have hrefused : d.RefusesTries recover 3 := by
    intro k hk
    refine ⟨.unavailable "", ?_⟩
    revert k
    decide +kernel
  have honce : once.1 = .ok ⟨3, 1, 1⟩ := by decide +kernel
  have hlast : last.1 = .ok ⟨1, 1, 2⟩ := by decide +kernel
  have hs : s = (Session.start {} ledger).run [.request (.submit "2*3" 1)] := rfl
  have h : s.IsInStep := by
    rw [hs]
    exact Session.isInStep_run (Session.isInStep_start hvalid) _
  clear_value s
  have hcovered : d.Covered := covered_of_isInStep h
  obtain ⟨-, -, hboard, hrows⟩ := (recovery_resumes h.valid hcovered).2 3 hrefused
  obtain ⟨hagain, hboard', -⟩ :=
    (recovery_resumes (d := d.withoutRefusals) h.valid hcovered).1 _ honce
  exact ⟨hrefused, honce, hlast, hboard, hrows, hagain, hboard'⟩

end Faulty

end Dispatcher

end Reckoner
