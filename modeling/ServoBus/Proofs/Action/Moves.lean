import Mathlib.Order.Defs.Unbundled
import ServoBus.Action

/-!
# What an action does to the state

A failed action may have changed the state, too. `Action.Moves` relates the state at the
end of an action to that at its start, whatever comes out of the action. If the relation is
a preorder, an action moves along it as soon as its parts do, so a proof follows the text of
the action. To leave some view of the state alone is one such relation.
-/

namespace ServoBus

namespace Action

variable {σ τ α β γ : Type}

def Moves (R : σ → σ → Prop) (x : Action σ α) : Prop := ∀ s, R s (result x s).2

section Preorder

variable {R : σ → σ → Prop} [IsPreorder σ R]

theorem moves_pure (a : α) : Moves R (pure a : Action σ α) := fun s => refl_of R s

theorem moves_throw (e : Fault) : Moves R (throw e : Action σ α) := fun s => refl_of R s

theorem moves_get : Moves R (get : Action σ σ) := fun s => refl_of R s

theorem moves_lift (x : Logged α) : Moves R (liftM x : Action σ α) := fun s => refl_of R s

theorem moves_ofChecked (x : Checked α) : Moves R (ofChecked x : Action σ α) :=
  fun s => refl_of R s

theorem moves_within (start : τ) (x : Action τ α) : Moves R (within start x : Action σ (α × τ)) :=
  fun s => refl_of R s

theorem Moves.bind {x : Action σ α} {f : α → Action σ β} (hx : Moves R x)
    (hf : ∀ a, Moves R (f a)) : Moves R (x >>= f) := by
  intro s
  have h := hx s
  rw [result_bind]
  rcases hr : result x s with ⟨e | a, t⟩
  · rw [hr] at h
    exact h
  · rw [hr] at h
    exact trans_of R h (hf a t)

theorem Moves.tryCatch {x : Action σ α} {handle : Fault → Action σ α} (hx : Moves R x)
    (hh : ∀ e, Moves R (handle e)) : Moves R (tryCatch x handle) := by
  intro s
  have h := hx s
  rw [result_tryCatch]
  rcases hr : result x s with ⟨e | a, t⟩
  · rw [hr] at h
    exact trans_of R h (hh e t)
  · rw [hr] at h
    exact h

theorem Moves.mapM {f : α → Action σ β} (hf : ∀ a, Moves R (f a)) (as : List α) :
    Moves R (as.mapM f) := by
  induction as with
  | nil => exact moves_pure []
  | cons a as ih =>
    rw [List.mapM_cons]
    exact (hf a).bind fun b => ih.bind fun bs => moves_pure (b :: bs)

theorem Moves.foldlM {f : β → α → Action σ β} (hf : ∀ b a, Moves R (f b a)) (as : List α)
    (b : β) : Moves R (as.foldlM f b) := by
  induction as generalizing b with
  | nil => exact moves_pure b
  | cons a as ih =>
    rw [List.foldlM_cons]
    exact (hf b a).bind ih

end Preorder

theorem Moves.map {R : σ → σ → Prop} {x : Action σ α} (f : α → β) (hx : Moves R x) :
    Moves R (f <$> x) := by
  intro s
  rw [result_map]
  exact hx s

theorem Moves.noting {R : σ → σ → Prop} {x : Action σ α} (note : Fault → Logged Unit)
    (hx : Moves R x) : Moves R (x.noting note) := by
  intro s
  rw [result_noting]
  exact hx s

theorem Moves.zoom {S : τ → τ → Prop} {R : σ → σ → Prop} {get : σ → τ} {set : τ → σ → σ}
    {x : Action τ α} (hx : Moves S x) (h : ∀ s u, S (get s) u → R s (set u s)) :
    Moves R (zoom get set x) := by
  intro s
  rw [result_zoom]
  exact h s _ (hx (get s))

theorem Moves.of_result {R : σ → σ → Prop} {x : Action σ α} (hx : Moves R x)
    {r : Except Fault α} {s t : σ} (h : result x s = (r, t)) : R s t := by
  have := hx s
  rwa [h] at this

/-- Two states look the same through a view. -/
def Same (view : σ → γ) (s t : σ) : Prop := view t = view s

instance (view : σ → γ) : IsPreorder σ (Same view) where
  refl _ := rfl
  trans _ _ _ h h' := Eq.trans h' h

/-- An action that does not touch what is seen through a view. -/
abbrev Keeps (view : σ → γ) (x : Action σ α) : Prop := Moves (Same view) x

/-- An action on a component does not touch what is beside the component. -/
theorem keeps_zoom {view : σ → γ} {get : σ → τ} {set : τ → σ → σ} (x : Action τ α)
    (h : ∀ s u, view (set u s) = view s) : Keeps view (zoom get set x) := by
  intro s
  rw [result_zoom]
  exact h s _

end Action

end ServoBus
