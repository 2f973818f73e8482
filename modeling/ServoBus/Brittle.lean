import ServoBus.Action

/-!
# Actions that may break

A fault is an answer: it is handed on, and what was done before it stays done. Some steps have no
answer at all: a sum that does not fit into its word, a place at which there is nothing. An action
with such steps breaks there, and a broken action has neither a value nor a fault nor a state.

`Brittle.result?` is the result of an action, messages aside, or nothing if it broke.
-/

namespace ServoBus

/-- What follows a break is not carried out. -/
theorem Logged.value_run_bind {α β : Type} (x : OptionT Logged α) (f : α → OptionT Logged β) :
    (x >>= f).run.value = x.run.value.bind fun a => (f a).run.value := by
  rw [OptionT.run_bind, Option.elimM, Logged.value_bind]
  cases x.run.value <;> rfl

abbrev Brittle (σ α : Type) := ExceptT Fault (StateT σ (OptionT Logged)) α

namespace Brittle

variable {σ α β : Type}

/-- The outcome without the messages, unless the action broke. -/
def result? (x : Brittle σ α) (s : σ) : Option (Except Fault α × σ) := (x.run.run s).run.value

/-- Goes on with a value, and breaks if there is none. -/
def need (a? : Option α) : Brittle σ α := ExceptT.lift (StateT.lift (OptionT.mk (pure a?)))

/-- An action as one that does not break. -/
def ofAction (x : Action σ α) : Brittle σ α := ExceptT.mk fun s => OptionT.lift (x.exec s)

@[simp] theorem result?_pure (a : α) (s : σ) :
    result? (pure a : Brittle σ α) s = some (.ok a, s) := rfl

@[simp] theorem result?_get (s : σ) : result? (get : Brittle σ σ) s = some (.ok s, s) := rfl

@[simp] theorem result?_set (t s : σ) :
    result? (set t : Brittle σ PUnit) s = some (.ok ⟨⟩, t) := rfl

@[simp] theorem result?_lift (x : OptionT Logged α) (s : σ) :
    result? (liftM x : Brittle σ α) s = x.run.value.map fun a => (.ok a, s) := by
  rcases x with ⟨_ | a, messages⟩ <;> rfl

@[simp] theorem result?_need_none (s : σ) : result? (need none : Brittle σ α) s = none := rfl

@[simp] theorem result?_ofAction (x : Action σ α) (s : σ) :
    result? (ofAction x) s = some (x.result s) := rfl

/-- A value that is there is not missed. -/
@[simp] theorem need_some (a : α) : (need (some a) : Brittle σ α) = pure a := rfl

/-- What follows a fault is not carried out either. -/
theorem result?_bind (x : Brittle σ α) (f : α → Brittle σ β) (s : σ) :
    result? (x >>= f) s =
      match result? x s with
      | none => none
      | some (.error e, t) => some (.error e, t)
      | some (.ok a, t) => result? (f a) t := by
  simp only [result?, ExceptT.run_bind, StateT.run_bind, Logged.value_run_bind]
  rcases (x.run.run s).run.value with - | ⟨_ | _, t⟩ <;> rfl

end Brittle

end ServoBus
