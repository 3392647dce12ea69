/-
Reckoner.Proofs.Board.Idle — boards on which no task is out with a worker.

On such a board a task is pending or done. The pending task of lowest id waits for
nothing, so it is the one to hand out (`Idle.peek?_eq`), and there is none only when
the board is empty (`Idle.eq_empty`). A task that is handed out and carried out at
once leaves the other tasks with the status that they had.

  1. The next task
  2. A task that is carried out at once
-/
import Reckoner.Proofs.Board.Apart
import Reckoner.Proofs.Board.Progress
import Reckoner.Proofs.Task.Following
import Reckoner.Proofs.Task.Working

namespace Reckoner

/-- The task has not been handed out. -/
def Task.isPending (t : Task) : Bool := t.status = .pending

theorem Task.isPending_iff (t : Task) : t.isPending = true ↔ t.status = .pending := by
  simp [isPending]

namespace Board

variable {b : Board}

/-! ## 1. The next task -/

/-- No task is out with a worker. -/
def Idle (b : Board) : Prop := ∀ t ∈ b.tasks.values, t.status ≠ .computing

/-- A task that is not pending has ended. -/
theorem Idle.isFinal (hidle : b.Idle) {t : Task} (ht : t ∈ b.tasks.values)
    (hs : t.status ≠ .pending) : t.status.isFinal = true := by
  have hcomputing := hidle t ht
  cases hstatus : t.status with
  | pending => exact absurd hstatus hs
  | computing => exact absurd hstatus hcomputing
  | done => rfl
  | error => rfl

/-- The task to hand out is the first pending one. -/
theorem Idle.peek?_eq (hidle : b.Idle) (h : b.Served) :
    b.peek? = b.tasks.values.find? Task.isPending := by
  have hcoherent := h.reachable.coherent
  rw [peek?_eq_find? hcoherent]
  cases hfind : b.tasks.values.find? Task.isPending with
  | none =>
    rw [List.find?_eq_none] at hfind ⊢
    intro t ht hrun
    exact hfind t ht (t.isPending_iff.2 (t.isRunnable_iff.1 hrun).1)
  | some t =>
    obtain ⟨hpending, pre, post, hsplit, hpre⟩ := List.find?_eq_some_iff_append.1 hfind
    rw [Task.isPending_iff] at hpending
    have hmem := List.mem_of_find?_eq_some hfind
    -- What stands in front of it has ended, so it is the first open task.
    have hbefore : ∀ u ∈ pre, u.status ≠ .pending := fun u hu hs => by
      have hnot := hpre u hu
      rw [u.isPending_iff.2 hs] at hnot
      cases hnot
    have hfirst : b.tasks.values.find? (isOpen t.expressionId) = some t := by
      refine List.find?_eq_some_iff_append.2 ⟨?_, pre, post, hsplit, fun u hu => ?_⟩
      · simp [isOpen, hpending, Status.isFinal]
      · have humem : u ∈ b.tasks.values := by
          rw [hsplit]
          exact List.mem_append_left _ hu
        simp [isOpen, hidle.isFinal humem (hbefore u hu)]
    have hrun : t.isRunnable = true :=
      (isRunnable_or_computing hcoherent h.flowing hfirst).resolve_right (hidle t hmem)
    refine List.find?_eq_some_iff_append.2 ⟨hrun, pre, post, hsplit, fun u hu => ?_⟩
    simp [Task.not_isRunnable_of_status (hbefore u hu)]

/-- It has the lowest id of all pending tasks. -/
theorem Idle.id_le_of_peek? (hidle : b.Idle) (h : b.Served) {t u : Task}
    (hpeek : b.peek? = some t) (hu : u ∈ b.tasks.values) (hs : u.status = .pending) :
    t.id ≤ u.id := by
  rw [hidle.peek?_eq h] at hpeek
  obtain ⟨-, pre, post, hsplit, hpre⟩ := List.find?_eq_some_iff_append.1 hpeek
  have hasc := pairwise_id h.reachable.coherent
  rw [hsplit] at hu hasc
  simp only [List.map_append, List.map_cons, List.pairwise_append, List.pairwise_cons,
    List.forall_mem_map] at hasc
  rcases List.mem_append.1 hu with hbefore | hbehind
  · have hnot := hpre u hbefore
    rw [u.isPending_iff.2 hs] at hnot
    cases hnot
  · rcases List.mem_cons.1 hbehind with rfl | hbehind
    · exact Int.le_refl _
    · exact Int.le_of_lt (hasc.2.1.1 u hbehind)

/-- Where there is no task to hand out, the board is empty. -/
theorem Idle.eq_empty (hidle : b.Idle) (h : b.Served) (hpeek : b.peek? = none) :
    b = { empty with nextId := b.nextId } := by
  refine eq_empty_of_values h.reachable.coherent ?_
  by_contra hne
  obtain ⟨t, ht⟩ := List.exists_mem_of_ne_nil _ hne
  have hlive := (isLive_iff_exists_mem h.reachable.coherent t.expressionId).2 ⟨t, ht, rfl⟩
  obtain ⟨u, hu, -, hgo⟩ := exists_runnable_or_computing h hlive
  rw [peek?_eq_find? h.reachable.coherent, List.find?_eq_none] at hpeek
  rcases hgo with hrun | hs
  · exact hpeek u hu hrun
  · exact hidle u hu hs

end Board

/-! ## 2. A task that is carried out at once -/

/-- What becomes of a task when one is handed out and has this value. -/
def Board.carriedOut (id : Int) (x : Number) (u : Task) : Task :=
  afterValue (.success id x) (handedOut id u)

namespace Board

variable (id : Int) (x : Number) (u : Task)

@[simp] theorem id_carriedOut : (carriedOut id x u).id = u.id :=
  (id_afterValue _ _).trans (id_handedOut id u)

@[simp] theorem expressionId_carriedOut : (carriedOut id x u).expressionId = u.expressionId :=
  (expressionId_afterValue _ _).trans (expressionId_handedOut id u)

theorem doneWith_carriedOut {u : Task} (hid : u.id = id) : (carriedOut id x u).DoneWith x :=
  Task.doneWith_afterValue (r := .success id x) ((id_handedOut id u).trans hid)

/-- The others keep their status. -/
theorem status_carriedOut {u : Task} (hid : u.id ≠ id) :
    (carriedOut id x u).status = u.status := by
  rw [carriedOut, handedOut, if_neg hid]
  exact status_afterValue (r := .success id x) hid

/-- Afterwards there is no task out with a worker. -/
theorem Idle.map_carriedOut {b b' : Board} {id : Int} {x : Number} (hidle : b.Idle)
    (htasks : b'.tasks.values = b.tasks.values.map (carriedOut id x)) : b'.Idle := by
  rw [Idle, htasks]
  refine List.forall_mem_map.2 fun u hu => ?_
  by_cases hid : u.id = id
  · rw [(doneWith_carriedOut id x hid).status]
    decide
  · rw [status_carriedOut id x hid]
    exact hidle u hu

end Board

theorem Task.DoneWith.carriedOut {t : Task} {id : Int} {y : Number} (h : t.DoneWith y)
    (hid : t.id ≠ id) (x : Number) : (Board.carriedOut id x t).DoneWith y := by
  rw [Board.carriedOut, Board.handedOut, if_neg hid]
  exact h.afterValue (r := .success id x) hid

/-- What comes of a report on the task that is next, once it is out: its value goes
on, or is the last one of its expression, or there is none. -/
inductive Board.Carries (b : Board) (t : Task) : Completion → Board → Prop
  | progressed {x : Number} {unblocked : Option Int} {b' : Board} (value : t.evaluate = .ok x)
      (tasks : b'.tasks.values = b.tasks.values.map (carriedOut t.id x)) :
      Carries b t (.progressed unblocked) b'
  | done {x : Number} {b' : Board} (value : t.evaluate = .ok x)
      (last : ∀ u ∈ b.tasks.values, u.expressionId = t.expressionId → u.status = .pending →
        u.id = t.id) :
      Carries b t (.finished t.expressionId (.done x)) b'
  | failed {err : EvalError} {b' : Board} (fails : t.evaluate = .error err) :
      Carries b t (.finished t.expressionId (.failed .zero err.message)) b'

namespace Board

variable {b b' : Board} {t : Task} {c : Completion}

theorem get?_handOut_self (b : Board) (t : Task) :
    (b.handOut t.id t).get? t.id = some { t with status := .computing } :=
  IdMap.get?_insert_self _ _ _

/-- The board takes the report. -/
theorem exists_complete_handOut (b : Board) (t : Task) :
    ∃ c b', (b.handOut t.id t).complete t.execute = .ok (c, b') := by
  cases hcomplete : (b.handOut t.id t).complete t.execute with
  | ok answer => exact ⟨answer.1, answer.2, rfl⟩
  | error err =>
    have hget := b.get?_handOut_self t
    rcases refuses_of_complete hcomplete with ⟨hnone, -⟩ | ⟨u, hu, hs, -⟩
    · rw [t.id_execute, hget] at hnone
      cases hnone
    · rw [t.id_execute, hget] at hu
      cases hu
      exact absurd rfl hs

/-- It is on the task that has gone out. -/
theorem completes_handOut
    (hcomplete : (b.handOut t.id t).complete t.execute = .ok (c, b')) :
    (b.handOut t.id t).get? t.execute.id = some { t with status := .computing } ∧
      Completes (b.handOut t.id t) t.execute { t with status := .computing } c b' := by
  obtain ⟨u, hu, -, hc⟩ := completes_of_complete hcomplete
  have hself := hu
  rw [t.id_execute, b.get?_handOut_self] at hself
  cases hself
  exact ⟨hu, hc⟩

theorem carries_of_complete (h : b.Served) (hpeek : b.peek? = some t)
    (hcomplete : (b.handOut t.id t).complete t.execute = .ok (c, b')) : b.Carries t c b' := by
  have hcoherent := h.reachable.coherent
  have hget := get?_of_peek? hcoherent hpeek
  have hserved : (b.handOut t.id t).Served := .claim h (claim?_of_peek? hcoherent hpeek)
  have hvalues := values_handOut hcoherent hget
  obtain ⟨hu, hc⟩ := completes_handOut hcomplete
  cases hvalue : t.evaluate with
  | ok x =>
    have hr : t.execute = .success t.id x := by rw [Task.execute, hvalue]
    rw [hr] at hc hu
    cases hc with
    | failed isError => cases isError
    | last isValue none_left =>
      refine .done hvalue fun v hv hve hvs => ?_
      rw [none_left_iff hserved.reachable.coherent hserved.counted hu rfl, List.any_eq_false,
        List.forall_mem_map, hvalues] at none_left
      by_contra hid
      have hopen := none_left _ (List.mem_map_of_mem hv)
      have hstatus := status_carriedOut t.id x hid
      rw [carriedOut] at hstatus
      simp [isOpen, hstatus, hve, hvs, Status.isFinal] at hopen
    | progressed isValue some_left =>
      refine .progressed hvalue ?_
      rw [values_afterValue hserved.reachable.coherent hu rfl, hvalues, List.map_map]
      rfl
  | error err =>
    have hr : t.execute = .failure t.id err.message := by rw [Task.execute, hvalue]
    have herror : t.execute.errorText? = some err.message := by
      simp [hr, Report.failure, Report.errorText?, err.message_ne_empty]
    rw [hr] at herror hc
    cases hc with
    | failed isError =>
      rw [herror] at isError
      cases isError
      exact .failed hvalue
    | last isValue none_left =>
      rw [herror] at isValue
      cases isValue
    | progressed isValue some_left =>
      rw [herror] at isValue
      cases isValue

/-- The tasks of the other expressions stay as they were. -/
theorem mem_map_carriedOut (h : b.Served) (hpeek : b.peek? = some t) (x : Number) {u : Task}
    (hne : u.expressionId ≠ t.expressionId) :
    u ∈ b.tasks.values.map (carriedOut t.id x) ↔ u ∈ b.tasks.values := by
  have hcoherent := h.reachable.coherent
  have hget := get?_of_peek? hcoherent hpeek
  have hself : ∀ v ∈ b.tasks.values, v.expressionId ≠ t.expressionId →
      carriedOut t.id x v = v := by
    intro v hv hvne
    rw [carriedOut, handedOut, if_neg (id_ne_of_owner hcoherent hget hv hvne)]
    exact afterValue_eq_self hcoherent hget hv hvne
  constructor
  · intro hu
    obtain ⟨v, hv, rfl⟩ := List.mem_map.1 hu
    rw [expressionId_carriedOut] at hne
    rwa [hself v hv hne]
  · intro hu
    rw [← hself u hu hne]
    exact List.mem_map_of_mem hu

/-- When its expression ends, the other tasks stay as they were. -/
theorem values_evict_handOut (h : b.Served) (hpeek : b.peek? = some t) {e : Int} {o : Outcome}
    (hcomplete : (b.handOut t.id t).complete t.execute = .ok (.finished e o, b')) :
    (b'.evict t.expressionId).tasks.values =
      b.tasks.values.filter fun u => u.expressionId != t.expressionId := by
  have hcoherent := h.reachable.coherent
  have hget := get?_of_peek? hcoherent hpeek
  have hserved : (b.handOut t.id t).Served := .claim h (claim?_of_peek? hcoherent hpeek)
  obtain ⟨hu, hc⟩ := completes_handOut hcomplete
  have hended := values_evict_of_completes hserved.reachable.coherent hu rfl hc (o := o)
    (by rw [hc.owner_of_finished])
  refine hended.trans ?_
  rw [values_handOut hcoherent hget]
  refine filter_map_of_owner (expressionId_handedOut t.id) fun v hv hne => ?_
  rw [handedOut, if_neg (id_ne_of_owner hcoherent hget hv hne)]

end Board

/-- A pending task that is carried out leaves its expression following its plan. -/
theorem Follows.carriedOut {e first : Int} {plan : Plan} {ts : List Task}
    (h : Follows e plan first ts) {t : Task} (ht : t ∈ ts) (he : t.expressionId = e)
    (honly : ∀ u ∈ ts, u.id = t.id → u.status = .pending) (x : Number) :
    Follows e plan first (ts.map (Board.carriedOut t.id x)) := by
  have hnone : ∀ u ∈ ts, u.id = t.id → u.status ≠ .done := fun u hu hid => by
    rw [honly u hu hid]
    decide
  have hout := h.handOut hnone
  have hmap : ts.map (Board.carriedOut t.id x) =
      (ts.map (Board.handedOut t.id)).map (Board.afterValue (.success t.id x)) := by
    rw [List.map_map]
    rfl
  rw [hmap]
  refine hout.afterValue (List.mem_map_of_mem ht) (Board.id_handedOut t.id t)
    ((Board.expressionId_handedOut t.id t).trans he) (List.forall_mem_map.2 fun u _ hid => ?_)
  have hid' : u.id = t.id := (Board.id_handedOut t.id u).symm.trans hid
  rw [Board.handedOut, if_pos hid']
  simp

end Reckoner
