import ServoBus.Action

/-!
# Successful actions

An action that succeeds has carried out each of its parts with success. The lemmas take
such a success apart: from the value and the state at the end they give those in between,
so a proof about an action with several steps peels off one step after the other and
never has to look at a fault.
-/

namespace ServoBus

theorem except_bind_eq_ok_iff {α β : Type} {x : Except Fault α} {f : α → Except Fault β} {b : β} :
    x >>= f = .ok b ↔ ∃ a, x = .ok a ∧ f a = .ok b := by
  cases x with
  | error e => simp [bind, Except.bind]
  | ok a => simp [bind, Except.bind]

theorem except_map_eq_ok_iff {α β : Type} {f : α → β} {x : Except Fault α} {b : β} :
    f <$> x = .ok b ↔ ∃ a, x = .ok a ∧ f a = b := by
  cases x with
  | error e => simp [Functor.map, Except.map]
  | ok a => simp [Functor.map, Except.map]

theorem Checked.outcome_bind_eq_ok_iff {α β : Type} {x : Checked α} {f : α → Checked β} {b : β} :
    outcome (x >>= f) = .ok b ↔ ∃ a, outcome x = .ok a ∧ outcome (f a) = .ok b := by
  rw [outcome_bind]
  exact except_bind_eq_ok_iff

namespace Action

variable {σ τ α β γ : Type}

theorem result_bind_eq_ok_iff {x : Action σ α} {f : α → Action σ β} {s u : σ} {b : β} :
    result (x >>= f) s = (.ok b, u) ↔
      ∃ a t, result x s = (.ok a, t) ∧ result (f a) t = (.ok b, u) := by
  rw [result_bind]
  rcases result x s with ⟨e | a, t⟩
  · simp
  · constructor
    · intro h
      exact ⟨a, t, rfl, h⟩
    · rintro ⟨a', t', hx, h⟩
      cases hx
      exact h

/-- The same where the first part has no value. -/
theorem result_seq_eq_ok_iff {x : Action σ PUnit} {f : PUnit → Action σ β} {s u : σ} {b : β} :
    result (x >>= f) s = (.ok b, u) ↔
      ∃ t, result x s = (.ok ⟨⟩, t) ∧ result (f ⟨⟩) t = (.ok b, u) := by
  rw [result_bind_eq_ok_iff]
  constructor
  · rintro ⟨_, t, h, h'⟩
    exact ⟨t, h, h'⟩
  · rintro ⟨t, h, h'⟩
    exact ⟨⟨⟩, t, h, h'⟩

theorem result_map_eq_ok_iff {f : α → β} {x : Action σ α} {s u : σ} {b : β} :
    result (f <$> x) s = (.ok b, u) ↔ ∃ a, result x s = (.ok a, u) ∧ f a = b := by
  rw [result_map]
  rcases result x s with ⟨e | a, t⟩
  · simp [Except.map]
  · simp only [Except.map, Prod.mk.injEq, Except.ok.injEq]
    constructor
    · rintro ⟨rfl, rfl⟩
      exact ⟨a, ⟨rfl, rfl⟩, rfl⟩
    · rintro ⟨a', ⟨rfl, rfl⟩, rfl⟩
      exact ⟨rfl, rfl⟩

theorem result_pure_eq_ok_iff {a b : α} {s t : σ} :
    result (pure a : Action σ α) s = (.ok b, t) ↔ b = a ∧ t = s := by
  simp [eq_comm]

/-- An action that is carried out for its effect, with a value that is known before. -/
theorem result_seq_pure_eq_ok_iff {x : Action σ PUnit} {b c : β} {s u : σ} :
    result (do x; pure c) s = (.ok b, u) ↔ result x s = (.ok ⟨⟩, u) ∧ b = c := by
  rw [result_seq_eq_ok_iff]
  constructor
  · rintro ⟨t, hx, hc⟩
    obtain ⟨rfl, rfl⟩ := result_pure_eq_ok_iff.1 hc
    exact ⟨hx, rfl⟩
  · rintro ⟨hx, rfl⟩
    exact ⟨u, hx, rfl⟩

theorem result_zoom_eq_ok_iff {get : σ → τ} {set : τ → σ → σ} {x : Action τ α} {s t : σ}
    {a : α} :
    result (zoom get set x) s = (.ok a, t) ↔
      ∃ u, result x (get s) = (.ok a, u) ∧ t = set u s := by
  rw [result_zoom]
  rcases result x (get s) with ⟨r, u⟩
  simp only [Prod.mk.injEq]
  constructor
  · rintro ⟨rfl, rfl⟩
    exact ⟨u, ⟨rfl, rfl⟩, rfl⟩
  · rintro ⟨u', ⟨rfl, rfl⟩, rfl⟩
    exact ⟨rfl, rfl⟩

theorem result_within_eq_ok_iff {start : τ} {x : Action τ α} {s t : σ} {p : α × τ} :
    result (within start x) s = (.ok p, t) ↔ result x start = (.ok p.1, p.2) ∧ t = s := by
  rcases p with ⟨a, u⟩
  rw [result_within]
  rcases result x start with ⟨e | b, v⟩ <;> simp [Except.map, eq_comm]

theorem result_ofChecked_eq_ok_iff {x : Checked α} {s t : σ} {a : α} :
    result (ofChecked x) s = (.ok a, t) ↔ x.outcome = .ok a ∧ t = s := by
  simp [eq_comm]

theorem result_mapM_nil (f : α → Action σ β) (s : σ) :
    result ([].mapM f) s = (.ok [], s) := rfl

theorem result_mapM_cons_eq_ok_iff {f : α → Action σ β} {a : α} {as : List α} {bs : List β}
    {s u : σ} :
    result ((a :: as).mapM f) s = (.ok bs, u) ↔
      ∃ b t bs', result (f a) s = (.ok b, t) ∧ result (as.mapM f) t = (.ok bs', u) ∧
        bs = b :: bs' := by
  rw [List.mapM_cons]
  simp only [result_bind_eq_ok_iff, result_pure_eq_ok_iff]
  constructor
  · rintro ⟨b, t, hb, bs', v, hbs, rfl, rfl⟩
    exact ⟨b, t, bs', hb, hbs, rfl⟩
  · rintro ⟨b, t, bs', hb, hbs, rfl⟩
    exact ⟨b, t, hb, bs', u, hbs, rfl, rfl⟩

theorem forall_of_result_mapM {P : β → Prop} {f : α → Action σ β}
    (hf : ∀ a s b t, result (f a) s = (.ok b, t) → P b) {as : List α} {bs : List β} {s u : σ}
    (h : result (as.mapM f) s = (.ok bs, u)) : ∀ b ∈ bs, P b := by
  induction as generalizing s bs with
  | nil =>
    rw [result_mapM_nil] at h
    cases h
    exact List.forall_mem_nil _
  | cons a as ih =>
    obtain ⟨b, t, bs, hb, hbs, rfl⟩ := result_mapM_cons_eq_ok_iff.1 h
    exact List.forall_mem_cons.2 ⟨hf a s b t hb, ih hbs⟩

theorem eq_ok_of_toOption {x : Except Fault α} {a : α} (h : x.toOption = some a) : x = .ok a := by
  cases x with
  | error e => cases h
  | ok b => exact congrArg Except.ok (Option.some.inj h)

/-- An action without a value that does not fail has only its state as a result. -/
theorem result_eq_ok_of_isOk {x : Action σ Unit} {s : σ} (h : (result x s).1.isOk = true) :
    result x s = (.ok (), (result x s).2) := by
  rcases hx : result x s with ⟨e | ⟨⟩, t⟩
  · simp [hx, Except.isOk, Except.toBool] at h
  · rfl

end Action

end ServoBus
