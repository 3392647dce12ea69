/-
Reckoner.Status — the life cycle that tasks and expressions share.
-/
namespace Reckoner

/-- Where a task or an expression stands: it waits, it is being worked out, or
it is finished in one of two ways. -/
inductive Status where
  | pending
  | computing
  | done
  | error
deriving DecidableEq

namespace Status

/-- The word for a status. -/
def word : Status → String
  | .pending => "pending"
  | .computing => "computing"
  | .done => "done"
  | .error => "error"

/-- The status a word stands for. -/
def ofWord? (s : String) : Option Status :=
  if s = "pending" then some .pending
  else if s = "computing" then some .computing
  else if s = "done" then some .done
  else if s = "error" then some .error
  else none

/-- Nothing leaves this status. -/
def isFinal : Status → Bool
  | .done => true
  | .error => true
  | _ => false

@[simp] theorem ofWord?_word (s : Status) : ofWord? s.word = some s := by
  cases s <;> rfl

/-- The status that something may be found in later: work on it begins once and
ends once. -/
inductive LeadsTo : Status → Status → Prop
  | refl (s : Status) : LeadsTo s s
  | start : LeadsTo .pending .computing
  | finish {s t : Status} (isOpen : s.isFinal = false) (final : t.isFinal = true) : LeadsTo s t

namespace LeadsTo

variable {s t u : Status}

theorem eq_of_final (h : LeadsTo s t) (final : s.isFinal = true) : t = s := by
  cases h with
  | refl => rfl
  | start => cases final
  | finish isOpen =>
    rw [final] at isOpen
    cases isOpen

theorem eq_pending (h : LeadsTo s .pending) : s = .pending := by
  cases h with
  | refl => rfl
  | finish isOpen final => cases final

theorem trans (hst : LeadsTo s t) (htu : LeadsTo t u) : LeadsTo s u := by
  cases hst with
  | refl => exact htu
  | start =>
    cases htu with
    | refl => exact .start
    | finish isOpen final => exact .finish rfl final
  | finish isOpen final =>
    rw [htu.eq_of_final final]
    exact .finish isOpen final

end LeadsTo

/-- What is wrong with a word that is no status. -/
def unknownMessage (word : String) : String :=
  "Serialization error: unknown status: " ++ word

end Status

end Reckoner
