/-
Reckoner.Proofs.Worker.Evaluable — a worker can carry out every task it gets.

A task is handed out when both its operands are literals. A literal is a token that
a formula was made of, or the text with six places of a number that was reported,
and both are read as numbers again, also where no finite number was reported. So
nothing but the operator can fail (`Task.Readable.evaluate_cases`), and the report
has a finite result or says what went wrong (`claimed_task_is_evaluable`).

  1. Operands that are read
  2. Carrying out a task
  3. Every task that is handed out
-/
import Reckoner.Proofs.Board.Tasks
import Reckoner.Proofs.Dispatcher.Run

namespace Reckoner

/-! ## 1. Operands that are read -/

/-- A literal of this text is read as a number. -/
def IsReadable (s : String) : Prop := ∃ x, (Operand.literal s).value = .ok x

theorem isReadable_of_isLiteral {s : String} (h : Plan.isLiteral s = true) : IsReadable s := by
  have hnumeric : (Tree.leaf s).Numeric := h
  obtain ⟨x, hx, -⟩ := hnumeric.exists_ofText?
  exact ⟨x, Operand.value_literal hx⟩

theorem isReadable_sixPlaces (x : Number) : IsReadable x.sixPlaces :=
  ⟨_, Operand.value_resolved x⟩

/-- Whatever was reported, the literals on a board are read as numbers. -/
theorem Board.Served.isReadable {b : Board} (h : b.Served) {t : Task} (ht : t ∈ b.tasks.values) :
    t.LiteralsAre IsReadable :=
  h.forall_tasks (keptByTasks_literalsAre (fun _ => isReadable_of_isLiteral) isReadable_sixPlaces)
    t ht

namespace Task

/-- Both operands of the task are read as numbers. -/
def Readable (t : Task) : Prop := ∀ side, ∃ x, (t.operand side).value = .ok x

theorem readable_of_literals {t : Task} (h : t.LiteralsAre IsReadable)
    (hliteral : ∀ side, (t.operand side).isLiteral = true) : t.Readable := by
  intro side
  have hside := hliteral side
  cases ho : t.operand side with
  | literal s => exact h side s ho
  | pending id =>
    rw [ho] at hside
    cases hside

/-- The status of a task has no part in its value. -/
theorem Readable.withStatus {t : Task} (h : t.Readable) (status : Status) :
    ({ t with status } : Task).Readable := by
  intro side
  obtain ⟨x, hx⟩ := h side
  exact ⟨x, by cases side <;> exact hx⟩

/-! ## 2. Carrying out a task -/

variable {t : Task}

/-- Only the operator can fail. -/
theorem Readable.evaluate_cases (h : t.Readable) :
    (∃ x, t.evaluate = .ok x ∧ x.isFinite = true) ∨ t.evaluate = .error .divisionByZero ∨
      t.evaluate = .error .overflow := by
  obtain ⟨x, hx⟩ := h .left
  obtain ⟨y, hy⟩ := h .right
  have heval : t.evaluate = t.operator.apply x y := evaluateOperands_eq_apply hx hy t.operator
  rw [heval]
  exact t.operator.apply_cases x y

theorem execute_of_ok {x : Number} (h : t.evaluate = .ok x) : t.execute = ⟨t.id, x, none⟩ := by
  rw [execute, h]
  rfl

theorem execute_of_error {err : EvalError} (h : t.evaluate = .error err) :
    t.execute = ⟨t.id, .zero, some err.message⟩ := by
  rw [execute, h]
  rfl

/-- The report gives a finite number, or zero with the reason why there is none. -/
theorem Readable.execute_cases (h : t.Readable) :
    (∃ x, t.execute = ⟨t.id, x, none⟩ ∧ x.isFinite = true) ∨
      ∃ text, t.execute = ⟨t.id, .zero, some text⟩ ∧ text ≠ "" := by
  rcases h.evaluate_cases with ⟨x, hx, hfinite⟩ | herr | herr
  · exact .inl ⟨x, execute_of_ok hx, hfinite⟩
  · exact .inr ⟨_, execute_of_error herr, EvalError.message_ne_empty _⟩
  · exact .inr ⟨_, execute_of_error herr, EvalError.message_ne_empty _⟩

/-- There is little to say of an operator that fails. -/
theorem Readable.length_error_le (h : t.Readable) :
    ∀ error, t.execute.error = some error → error.length ≤ 16 := by
  intro error herror
  rcases h.evaluate_cases with ⟨x, hx, -⟩ | herr | herr
  · rw [execute_of_ok hx] at herror
    cases herror
  · rw [execute_of_error herr] at herror
    cases herror
    decide
  · rw [execute_of_error herr] at herror
    cases herror
    decide

end Task

/-! ## 3. Every task that is handed out -/

theorem Board.Served.readable_of_peek? {b : Board} (h : b.Served) {t : Task}
    (hpeek : b.peek? = some t) : t.Readable := by
  have hcoherent := h.reachable.coherent
  exact Task.readable_of_literals (h.isReadable (mem_of_peek? hcoherent hpeek))
    fun side => isLiteral_of_peek? hcoherent hpeek side

namespace Session

variable {σ : Type} [Ledger σ] [LawfulLedger σ] {before : σ} {timings : Timings}

/-- A worker can carry out every task that it is handed out, whichever numbers were
reported before: the task has a finite value, divides by zero or overflows, and the
report says so. -/
theorem claimed_task_is_evaluable (hvalid : LawfulLedger.Valid before) (es : List Event)
    {t : Task} (hclaim : ((start timings before).run es).dispatcher.claim.1 = .ok t) :
    ((∃ x, t.evaluate = .ok x ∧ x.isFinite = true) ∨ t.evaluate = .error .divisionByZero ∨
      t.evaluate = .error .overflow) ∧
    ((∃ x, t.execute = ⟨t.id, x, none⟩ ∧ x.isFinite = true) ∨
      ∃ text, t.execute = ⟨t.id, .zero, some text⟩ ∧ text ≠ "") := by
  have h : ((start timings before).run es).IsInStep := isInStep_run (isInStep_start hvalid) es
  have hclaims := Dispatcher.claims h.valid h.coherent
  rw [hclaim] at hclaims
  generalize ((start timings before).run es).dispatcher.claim.2 = after at hclaims
  cases hclaims with
  | @handedOut u row s next found sets =>
    have hreadable := (h.served.readable_of_peek? next).withStatus .computing
    exact ⟨hreadable.evaluate_cases, hreadable.execute_cases⟩

/-- The quotient was reported to be no number, so the sum is handed out with an operand
that is none. The sum overflows. -/
theorem claimed_task_is_evaluable_nan :
    let events : List Event := [.request (.submit "1/3+2" 1), .request .claim,
      .request (.report ⟨1, .nan, none⟩)]
    let t : Task := ⟨2, 1, .literal "NaN", .literal "2", .add, 1000, .computing, none, none⟩
    ((start {} ({} : MemoryLedger)).run events).dispatcher.claim.1 = .ok t ∧
      t.evaluate = .error .overflow ∧ ∃ text, t.execute = ⟨2, .zero, some text⟩ ∧ text ≠ "" := by
  intro events t
  have hempty : LawfulLedger.Valid ({} : MemoryLedger) := fun _ _ h => nomatch h
  have hclaim : ((start {} ({} : MemoryLedger)).run events).dispatcher.claim.1 = .ok t := by
    decide +kernel
  have hoverflow : t.evaluate = .error .overflow := by decide +kernel
  obtain ⟨-, ⟨x, hx, -⟩ | hfails⟩ := claimed_task_is_evaluable hempty events hclaim
  · rw [Task.execute_of_error hoverflow] at hx
    cases hx
  · exact ⟨hclaim, hoverflow, hfails⟩

end Session

end Reckoner
