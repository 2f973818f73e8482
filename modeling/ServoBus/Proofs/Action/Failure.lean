import ServoBus.Action

/-!
# Failed actions

The fault of an action is that of one of its parts. `Action.FailsWith P` says that every fault
that can come out of an action, from whatever state, has a property, and a proof of it follows
the text of the action. Where a fault depends on the state, the failure is taken apart step by
step instead.
-/

namespace ServoBus.Action

variable {σ τ α β : Type}

/-- A sequence fails in its first part, or behind it in its second one. -/
theorem result_bind_eq_error_iff {x : Action σ α} {f : α → Action σ β} {s u : σ} {e : Fault} :
    result (x >>= f) s = (.error e, u) ↔
      result x s = (.error e, u) ∨
        ∃ a t, result x s = (.ok a, t) ∧ result (f a) t = (.error e, u) := by
  rw [result_bind]
  rcases result x s with ⟨e' | a, t⟩
  · simp
  · constructor
    · intro h
      exact .inr ⟨a, t, rfl, h⟩
    · rintro (h | ⟨a', t', hx, h⟩)
      · cases h
      · cases hx
        exact h

/-- Every fault of the action has the property. -/
def FailsWith (P : Fault → Prop) (x : Action σ α) : Prop :=
  ∀ s e t, result x s = (.error e, t) → P e

variable {P : Fault → Prop}

theorem FailsWith.imp {Q : Fault → Prop} {x : Action σ α} (hx : FailsWith P x)
    (h : ∀ e, P e → Q e) : FailsWith Q x :=
  fun s e t he => h e (hx s e t he)

/-- What an action does in between does not matter, nor how it is written. -/
theorem FailsWith.of_result_eq {x y : Action σ α} (h : ∀ s, result x s = result y s)
    (hy : FailsWith P y) : FailsWith P x :=
  fun s e t he => hy s e t ((h s).symm.trans he)

theorem failsWith_pure (a : α) : FailsWith P (pure a : Action σ α) := by
  intro s e t h
  cases h

theorem failsWith_throw {e : Fault} (he : P e) : FailsWith P (throw e : Action σ α) := by
  intro s e' t h
  cases h
  exact he

theorem failsWith_get : FailsWith P (get : Action σ σ) := by
  intro s e t h
  cases h

theorem failsWith_modify (f : σ → σ) : FailsWith P (modify f : Action σ PUnit) := by
  intro s e t h
  cases h

theorem failsWith_lift (x : Logged α) : FailsWith P (liftM x : Action σ α) := by
  intro s e t h
  cases h

theorem failsWith_ofChecked {x : Checked α} (hx : ∀ e, x.outcome = .error e → P e) :
    FailsWith P (ofChecked x : Action σ α) := by
  intro s e t h
  rw [result_ofChecked, Prod.mk.injEq] at h
  exact hx e h.1

theorem FailsWith.bind {x : Action σ α} {f : α → Action σ β} (hx : FailsWith P x)
    (hf : ∀ a, FailsWith P (f a)) : FailsWith P (x >>= f) := by
  intro s e u h
  rcases result_bind_eq_error_iff.1 h with h | ⟨a, t, -, h⟩
  · exact hx s e u h
  · exact hf a t e u h

theorem FailsWith.noting {x : Action σ α} (note : Fault → Logged Unit) (hx : FailsWith P x) :
    FailsWith P (x.noting note) := by
  intro s e t h
  rw [result_noting] at h
  exact hx s e t h

/-- The faults of an action that is caught are not seen outside. -/
theorem FailsWith.tryCatch {x : Action σ α} {handle : Fault → Action σ α}
    (hh : ∀ e, FailsWith P (handle e)) : FailsWith P (tryCatch x handle) := by
  intro s e t h
  rw [result_tryCatch] at h
  split at h
  · cases h
  · next e' t' _ => exact hh e' t' e t h

theorem FailsWith.zoom {x : Action τ α} (hx : FailsWith P x) (get : σ → τ) (set : τ → σ → σ) :
    FailsWith P (zoom get set x) := by
  intro s e t h
  rw [result_zoom, Prod.mk.injEq] at h
  exact hx (get s) e _ (Prod.ext h.1 rfl)

theorem FailsWith.within {x : Action τ α} (hx : FailsWith P x) (start : τ) :
    FailsWith P (within start x : Action σ (α × τ)) := by
  intro s e t h
  rw [result_within, Prod.mk.injEq] at h
  rcases hr : result x start with ⟨e' | a, u⟩
  · rw [hr] at h
    cases h.1
    exact hx start e u hr
  · rw [hr] at h
    cases h.1

theorem FailsWith.mapM {f : α → Action σ β} (hf : ∀ a, FailsWith P (f a)) (as : List α) :
    FailsWith P (as.mapM f) := by
  induction as with
  | nil => exact failsWith_pure []
  | cons a as ih =>
    rw [List.mapM_cons]
    exact (hf a).bind fun b => ih.bind fun bs => failsWith_pure (b :: bs)

theorem FailsWith.foldlM {f : β → α → Action σ β} {as : List α}
    (hf : ∀ a ∈ as, ∀ b, FailsWith P (f b a)) (b : β) : FailsWith P (as.foldlM f b) := by
  induction as generalizing b with
  | nil => exact failsWith_pure b
  | cons a as ih =>
    rw [List.foldlM_cons]
    refine (hf a (List.mem_cons_self ..) b).bind fun b => ?_
    exact ih (fun a' ha' => hf a' (List.mem_cons_of_mem a ha')) b

end ServoBus.Action
