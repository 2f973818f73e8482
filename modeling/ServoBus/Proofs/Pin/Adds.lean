import ServoBus.Proofs.Setup

/-!
# Pins that were added

A step of the setup that makes pins puts them behind those that are there already. It leaves
those as they are, with their values, and what it refers to afterwards are new pins, all of
them different ones. `PinTable.Adds` says so of the tables before and after such a step, and
it goes from one step to the next by appending what they refer to.
-/

namespace ServoBus

namespace PinTable

/-- Between two tables pins were added, and these references are to different ones of them. -/
structure Adds (t t' : PinTable) (refs : List PinRef) : Prop where
  stays : t.pins <+: t'.pins
  nodup : refs.Nodup
  bounds : ∀ ref ∈ refs, t.size ≤ ref.index ∧ ref.index < t'.size

namespace Adds

variable {t t' t'' : PinTable} {refs refs' : List PinRef}

theorem size_le (h : Adds t t' refs) : t.size ≤ t'.size := h.stays.length_le

/-- A pin that was there has not changed. -/
theorem pin?_eq (h : Adds t t' refs) {ref : PinRef} (hr : ref.index < t.size) :
    t'.pin? ref = t.pin? ref := by
  obtain ⟨rest, hrest⟩ := h.stays
  rw [pin?, pin?, ← hrest, List.getElem?_append_left hr]

theorem refl (t : PinTable) : Adds t t [] := ⟨List.prefix_rfl, List.nodup_nil, nofun⟩

theorem append (h : Adds t t' refs) (h' : Adds t' t'' refs') : Adds t t'' (refs ++ refs') where
  stays := h.stays.trans h'.stays
  nodup := by
    refine List.nodup_append.2 ⟨h.nodup, h'.nodup, ?_⟩
    intro ref hr ref' hr' heq
    have hlt := (h.bounds ref hr).2
    have hle := (h'.bounds ref' hr').1
    rw [heq] at hlt
    omega
  bounds ref hr := by
    rcases List.mem_append.1 hr with hr | hr
    · exact ⟨(h.bounds ref hr).1, Nat.lt_of_lt_of_le (h.bounds ref hr).2 h'.size_le⟩
    · exact ⟨Nat.le_trans h.size_le (h'.bounds ref hr).1, (h'.bounds ref hr).2⟩

theorem perm (h : Adds t t' refs) (hr : refs.Perm refs') : Adds t t' refs' :=
  ⟨h.stays, h.nodup.perm hr, fun ref href => h.bounds ref (hr.mem_iff.2 href)⟩

/-- References may be forgotten. -/
theorem forget (h : Adds t t' refs) (hr : refs'.Sublist refs) : Adds t t' refs' :=
  ⟨h.stays, h.nodup.sublist hr, fun ref href => h.bounds ref (hr.subset href)⟩

theorem nil (h : Adds t t' refs) : Adds t t' [] := h.forget (List.nil_sublist _)

/-- A value that is put into a pin that was added does not touch those before it. -/
theorem modify (h : Adds t t' refs) {ref : PinRef} (hr : t.size ≤ ref.index) (f : Pin → Pin) :
    Adds t (t'.modify ref f) refs where
  stays := by
    refine List.prefix_iff_getElem?.2 fun i hi => ?_
    have hne : ref.index ≠ i := Nat.ne_of_gt (Nat.lt_of_lt_of_le hi hr)
    rw [PinTable.modify, List.getElem?_modify, List.prefix_iff_getElem?.1 h.stays i hi]
    simp [hne]
  nodup := h.nodup
  bounds ref' hr' := by
    rw [size_modify]
    exact h.bounds ref' hr'

end Adds

theorem adds_push (t : PinTable) (name : String) (kind : Pin.Kind) (direction : Pin.Direction) :
    Adds t (t.push name kind direction) [⟨t.size⟩] where
  stays := List.prefix_append _ _
  nodup := List.pairwise_singleton _ _
  bounds ref hr := by
    rw [List.mem_singleton] at hr
    rw [hr, size_push]
    exact ⟨Nat.le_refl _, Nat.lt_succ_self _⟩

end PinTable

namespace Setup

variable {μ α β : Type} {w w' : Workspace μ}

theorem adds_of_result_addPin {site : Site} {label? : Option String} {name : String}
    {kind : Pin.Kind} {direction : Pin.Direction} {ref : PinRef}
    (h : (addPin site label? name kind direction).result w = (.ok ref, w')) :
    w.pins.Adds w'.pins [ref] := by
  obtain ⟨t, ht, rfl⟩ := Action.result_zoom_eq_ok_iff.1 h
  obtain ⟨-, rfl, rfl⟩ := PinTable.result_add_eq_ok_iff.1 ht
  exact w.pins.adds_push _ kind direction

theorem adds_of_made_eq (h : made w' = made w) : w.pins.Adds w'.pins [] := by
  simp only [made, Prod.mk.injEq] at h
  rw [h.2.2]
  exact .refl w.pins

/-- A pin that is added is given a value at once. -/
theorem adds_of_result_putPin {w₀ : Workspace μ} {refs : List PinRef} {ref : PinRef}
    {v : Pin.Value} (h : w₀.pins.Adds w.pins refs) (hr : ref ∈ refs)
    (hput : (putPin ref v).result w = (.ok (), w')) : w₀.pins.Adds w'.pins refs := by
  obtain ⟨t, ht, rfl⟩ := Action.result_zoom_eq_ok_iff.1 hput
  cases ht
  exact h.modify (h.bounds ref hr).1 _

theorem adds_of_result_mapM {f : α → Setup μ β} {refs : β → List PinRef}
    (hf : ∀ a w b w', (f a).result w = (.ok b, w') → w.pins.Adds w'.pins (refs b))
    {as : List α} {bs : List β} (h : Action.result (as.mapM f) w = (.ok bs, w')) :
    w.pins.Adds w'.pins (bs.flatMap refs) := by
  induction as generalizing w bs with
  | nil =>
    rw [Action.result_mapM_nil] at h
    cases h
    exact .refl _
  | cons a as ih =>
    obtain ⟨b, w₁, bs, hb, hbs, rfl⟩ := Action.result_mapM_cons_eq_ok_iff.1 h
    exact (hf a w b w₁ hb).append (ih hbs)

end Setup

end ServoBus
