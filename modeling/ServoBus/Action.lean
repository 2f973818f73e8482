import ServoBus.Checked

/-!
# Actions

An action works on a state, may fail with a fault and reports messages. The state
reached by a failed action is kept, because what was done before the fault is done:
a value sent to a device stays there, a pin that was added exists.

`Action.zoom` runs an action on a component of a larger state, and `Action.within` on
a state that only the action sees.

`Action.exec` is all that an action does, and `Action.result` leaves the messages out
of it. The lemmas give the result of each way to make an action, so that statements
about faults and states need not speak of messages.
-/

namespace ServoBus

abbrev Action (σ α : Type) := ExceptT Fault (StateT σ Logged) α

namespace Action

variable {σ τ α β : Type}

/-- The outcome of an action that starts in a state. -/
def exec (x : Action σ α) (s : σ) : Logged (Except Fault α × σ) := x.run.run s

/-- The outcome without the messages. -/
def result (x : Action σ α) (s : σ) : Except Fault α × σ := (exec x s).value

/-- Reports a message about a fault and hands the fault on. -/
def noting (x : Action σ α) (note : Fault → Logged Unit) : Action σ α :=
  tryCatch x fun e => do
    note e
    throw e

/-- A check as an action that leaves the state alone. -/
def ofChecked (x : Checked α) : Action σ α := ExceptT.mk (liftM x.run)

/-- A step that may fail and changes the state in either case. -/
def ofStep (step : σ → Except Fault α × σ) : Action σ α := ExceptT.mk fun s => pure (step s)

/-- Runs an action on a state of its own and gives the state that it reached. -/
def within (start : τ) (x : Action τ α) : Action σ (α × τ) :=
  ExceptT.mk fun s => (fun (r, t) => (r.map (·, t), s)) <$> exec x start

/-- Runs an action on a component of the state. -/
def zoom (get : σ → τ) (set : τ → σ → σ) (x : Action τ α) : Action σ α :=
  ExceptT.mk fun s => (fun (r, t) => (r, set t s)) <$> exec x (get s)

@[simp] theorem result_pure (a : α) (s : σ) :
    result (pure a : Action σ α) s = (.ok a, s) := rfl

@[simp] theorem result_throw (e : Fault) (s : σ) :
    result (throw e : Action σ α) s = (.error e, s) := rfl

@[simp] theorem result_get (s : σ) : result (get : Action σ σ) s = (.ok s, s) := rfl

@[simp] theorem result_set (t s : σ) : result (set t : Action σ PUnit) s = (.ok ⟨⟩, t) := rfl

@[simp] theorem result_modify (f : σ → σ) (s : σ) :
    result (modify f : Action σ PUnit) s = (.ok ⟨⟩, f s) := rfl

@[simp] theorem result_lift (x : Logged α) (s : σ) :
    result (liftM x : Action σ α) s = (.ok x.value, s) := rfl

/-- What follows a fault is not carried out. -/
theorem result_bind (x : Action σ α) (f : α → Action σ β) (s : σ) :
    result (x >>= f) s =
      match result x s with
      | (.ok a, t) => result (f a) t
      | (.error e, t) => (.error e, t) := by
  simp only [result, exec, ExceptT.run_bind, StateT.run_bind, Logged.value_bind]
  rcases (StateT.run x.run s).value with ⟨_ | _, t⟩ <;> rfl

theorem result_map (f : α → β) (x : Action σ α) (s : σ) :
    result (f <$> x) s = ((result x s).1.map f, (result x s).2) := by
  rw [map_eq_pure_bind, result_bind]
  rcases result x s with ⟨_ | _, t⟩ <;> rfl

theorem result_tryCatch (x : Action σ α) (handle : Fault → Action σ α) (s : σ) :
    result (tryCatch x handle) s =
      match result x s with
      | (.ok a, t) => (.ok a, t)
      | (.error e, t) => result (handle e) t := by
  simp only [result, exec, tryCatch, tryCatchThe, MonadExceptOf.tryCatch, ExceptT.tryCatch,
    ExceptT.run_mk, StateT.run_bind, Logged.value_bind]
  have h : StateT.run (ExceptT.run x) s = StateT.run x s := rfl
  rw [h]
  rcases (StateT.run x s).value with ⟨_ | _, t⟩ <;> rfl

/-- A message about a fault changes nothing else. -/
@[simp] theorem result_noting (x : Action σ α) (note : Fault → Logged Unit) (s : σ) :
    result (x.noting note) s = result x s := by
  rw [noting, result_tryCatch]
  rcases result x s with ⟨_ | _, t⟩ <;> rfl

@[simp] theorem result_ofChecked (x : Checked α) (s : σ) :
    result (ofChecked x) s = (x.outcome, s) := rfl

@[simp] theorem result_ofStep (step : σ → Except Fault α × σ) (s : σ) :
    result (ofStep step) s = step s := rfl

@[simp] theorem result_within (start : τ) (x : Action τ α) (s : σ) :
    result (within start x) s =
      ((result x start).1.map (·, (result x start).2), s) := rfl

@[simp] theorem result_zoom (get : σ → τ) (set : τ → σ → σ) (x : Action τ α) (s : σ) :
    result (zoom get set x) s = ((result x (get s)).1, set (result x (get s)).2 s) := rfl

end Action

end ServoBus
