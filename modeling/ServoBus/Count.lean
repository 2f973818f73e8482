/-!
# Counts

What a machine counts has a word of the size of an address. Arithmetic on such words is checked: a
number that does not fit is no count, and what needed it breaks there, a traversal of a list at the
first element that breaks.

What is computed in words `Yields` what is computed with exact numbers: whatever comes out is the
exact value, and under some condition, which says that the numbers fit, something does come out.
-/

namespace ServoBus

/-- A number as a count, if it fits. -/
def count? (n : Nat) : Option USize := if n < USize.size then some (USize.ofNat n) else none

section Count

variable {n : Nat}

theorem count?_eq (h : n < USize.size) : count? n = some (USize.ofNat n) := if_pos h

theorem count?_eq_none (h : USize.size ≤ n) : count? n = none := if_neg (Nat.not_lt.2 h)

/-- A count has at least 32 bits. -/
theorem lt_size_of_lt (h : n < 4294967296) : n < USize.size := Nat.lt_of_lt_of_le h USize.le_size

end Count

variable {α β : Type}

/-- A traversal that breaks nowhere is a map. -/
theorem mapM_eq_some_map {f : α → Option β} {g : α → β} {xs : List α}
    (h : ∀ x ∈ xs, f x = some (g x)) : xs.mapM f = some (xs.map g) := by
  induction xs with
  | nil => rfl
  | cons x xs ih =>
    obtain ⟨hx, hxs⟩ := List.forall_mem_cons.1 h
    rw [List.mapM_cons, hx, ih hxs]
    rfl

/-- Whatever comes out in words is the exact value, and under the condition something does. -/
structure Yields (P : Prop) (x? : Option α) (x : α) : Prop where
  eq : ∀ y, x? = some y → y = x
  safe : P → x? = some x

section Yields

variable {P Q : Prop} {x? : Option α} {x : α}

theorem yields_some (x : α) : Yields P (some x) x where
  eq _ hy := (Option.some_inj.1 hy).symm
  safe _ := rfl

/-- What breaks without the condition needs to be looked at only under it. -/
theorem yields_of_eq_none (h : P → x? = some x) (hnone : ¬ P → x? = none) : Yields P x? x where
  eq y hy := by
    by_cases hP : P
    · rw [h hP] at hy
      exact (Option.some_inj.1 hy).symm
    · rw [hnone hP] at hy
      cases hy
  safe := h

/-- What follows may rely on it that the value came out. -/
theorem Yields.bind {f? : α → Option β} {y : β} (hx : Yields P x? x)
    (hf : x? = some x → Yields P (f? x) y) : Yields P (x?.bind f?) y where
  eq z hz := by
    obtain ⟨a, ha, hz⟩ := Option.bind_eq_some_iff.1 hz
    obtain rfl := hx.eq a ha
    exact (hf ha).eq z hz
  safe hP := by
    have hx := hx.safe hP
    rw [hx]
    exact (hf hx).safe hP

theorem Yields.map (hx : Yields P x? x) (f : α → β) : Yields P (x?.map f) (f x) := by
  rw [Option.map_eq_bind]
  exact hx.bind fun _ => yields_some _

theorem Yields.mono (hx : Yields Q x? x) (h : P → Q) : Yields P x? x :=
  ⟨hx.eq, fun hP => hx.safe (h hP)⟩

/-- A loop whose steps yield those of a fold yields the fold. -/
theorem Yields.foldlM {f? : β → α → Option β} {f : β → α → β} {xs : List α}
    (h : ∀ x ∈ xs, ∀ y, Yields P (f? y x) (f y x)) (y : β) :
    Yields P (xs.foldlM f? y) (xs.foldl f y) := by
  induction xs generalizing y with
  | nil => exact yields_some y
  | cons x xs ih =>
    obtain ⟨hx, hxs⟩ := List.forall_mem_cons.1 h
    rw [List.foldlM_cons]
    exact (hx y).bind fun _ => ih hxs (f y x)

end Yields

end ServoBus
