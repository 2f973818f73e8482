import ServoBus.Fault
import ServoBus.Log

/-!
# Checked results

A check gives a value or a fault, and reports messages on the way. What was
reported before a fault stays reported.
-/

namespace ServoBus

abbrev Checked (α : Type) := ExceptT Fault Logged α

namespace Checked

variable {α β : Type}

/-- The value or the fault, without the messages. -/
def outcome (x : Checked α) : Except Fault α := x.run.value

@[simp] theorem outcome_pure (a : α) : outcome (pure a : Checked α) = .ok a := rfl

@[simp] theorem outcome_throw (e : Fault) : outcome (throw e : Checked α) = .error e := rfl

@[simp] theorem outcome_lift (x : Logged α) : outcome (liftM x : Checked α) = .ok x.value := rfl

theorem outcome_bind (x : Checked α) (f : α → Checked β) :
    outcome (x >>= f) = outcome x >>= fun a => outcome (f a) := by
  simp only [outcome, ExceptT.run_bind, Logged.value_bind]
  cases x.run.value <;> rfl

/-- Reports an error and gives up. -/
def reject (text : String) (e : Fault) : Checked α := do
  Logged.error text
  throw e

@[simp] theorem outcome_reject (text : String) (e : Fault) :
    outcome (reject text e : Checked α) = .error e := rfl

end Checked

end ServoBus
