import ServoBus.Registration.Overlap

/-!
# What the check for overlaps finds

The check compares neighbours in the order of their positions only. It finds nothing
exactly if no two entries share a bit, wherever they stand: in sorted extents that pass, an
extent ends before all later ones start.
-/

namespace ServoBus

namespace Extent

/-- Extents that have no bit in common. -/
def Apart (a b : Extent) : Prop := a.stop ≤ b.start ∨ b.stop ≤ a.start

theorem Apart.symm {a b : Extent} (h : a.Apart b) : b.Apart a := h.elim .inr .inl

theorem insert_perm (a : Extent) (l : List Extent) : (insert a l).Perm (a :: l) := by
  induction l with
  | nil => exact .refl _
  | cons b rest ih =>
    rw [insert]
    split
    · exact .refl _
    · exact (ih.cons b).trans (.swap a b rest)

theorem sort_perm (l : List Extent) : (sort l).Perm l := by
  induction l with
  | nil => exact .refl _
  | cons a rest ih => exact (insert_perm a (sort rest)).trans (ih.cons a)

theorem insert_sorted (a : Extent) {l : List Extent}
    (h : l.Pairwise fun x y => x.le y = true) :
    (insert a l).Pairwise fun x y => x.le y = true := by
  induction l with
  | nil => exact List.pairwise_singleton _ a
  | cons b rest ih =>
    obtain ⟨hb, hrest⟩ := List.pairwise_cons.1 h
    rw [insert]
    split
    · next hab =>
      refine List.pairwise_cons.2 ⟨?_, h⟩
      intro c hc
      rcases List.mem_cons.1 hc with rfl | hc
      · exact hab
      · exact le_trans a b c hab (hb c hc)
    · next hab =>
      refine List.pairwise_cons.2 ⟨?_, ih hrest⟩
      intro c hc
      rcases List.mem_cons.1 ((insert_perm a rest).mem_iff.1 hc) with rfl | hc
      · exact le_of_not_le hab
      · exact hb c hc

theorem sort_sorted (l : List Extent) : (sort l).Pairwise fun x y => x.le y = true := by
  induction l with
  | nil => exact .nil
  | cons a rest ih => exact insert_sorted a ih

/-- Neighbours that pass put everything that stands later behind the first extent. -/
theorem stop_le_of_clash?_eq_none {a : Extent} {rest : List Extent}
    (hs : (a :: rest).Pairwise fun x y => x.le y = true) (h : clash? (a :: rest) = none) :
    ∀ b ∈ rest, a.stop ≤ b.start := by
  cases rest with
  | nil =>
    intro b hb
    cases hb
  | cons c rest =>
    have hca : a.stop ≤ c.start := by
      rw [clash?] at h
      split at h
      · cases h
      · omega
    intro b hb
    rcases List.mem_cons.1 hb with rfl | hb
    · exact hca
    · have hcb := le_iff.1 (List.rel_of_pairwise_cons (List.pairwise_cons.1 hs).2 hb)
      omega

/-- In sorted extents the neighbours pass exactly if all extents are apart. -/
theorem clash?_eq_none_iff {l : List Extent} (hl : ∀ a ∈ l, a.start ≤ a.stop)
    (hs : l.Pairwise fun x y => x.le y = true) : clash? l = none ↔ l.Pairwise Apart := by
  induction l with
  | nil => simp [clash?]
  | cons a rest ih =>
    have ih := ih (fun b hb => hl b (List.mem_cons_of_mem a hb)) (List.pairwise_cons.1 hs).2
    constructor
    · intro h
      have hrest : clash? rest = none := by
        cases rest with
        | nil => rfl
        | cons b rest =>
          rw [clash?] at h
          split at h
          · cases h
          · exact h
      refine List.pairwise_cons.2 ⟨?_, ih.1 hrest⟩
      intro b hb
      exact .inl (stop_le_of_clash?_eq_none hs h b hb)
    · intro h
      obtain ⟨ha, hrest⟩ := List.pairwise_cons.1 h
      cases rest with
      | nil => rfl
      | cons b rest =>
        have hle := le_iff.1 (List.rel_of_pairwise_cons hs List.mem_cons_self)
        have hb := hl b (List.mem_cons_of_mem a List.mem_cons_self)
        have hab : a.stop ≤ b.start := by
          rcases ha b List.mem_cons_self with h | h <;> omega
        rw [clash?, if_neg (Nat.not_lt.2 hab)]
        exact ih.2 hrest

end Extent

namespace Registration

/-- A bit of the process image belongs to an entry. -/
def Covers (r : Registration) (i : Nat) : Prop :=
  ∃ o, r.offset? = some o ∧ o.position ≤ i ∧ i < o.position + r.width

/-- Two entries share no bit. -/
def Apart (r q : Registration) : Prop := ∀ i, r.Covers i → ¬ q.Covers i

theorem Apart.symm {r q : Registration} (h : r.Apart q) : q.Apart r := by
  intro i hq hr
  exact h i hr hq

instance : Std.Symm Apart := ⟨fun _ _ => Apart.symm⟩

/-- Entries with bits are apart if their extents are, as far as they have one. -/
theorem apart_iff {r q : Registration} (hr : 0 < r.width) (hq : 0 < q.width) :
    r.Apart q ↔ ∀ a, r.extent? = some a → ∀ b, q.extent? = some b → a.Apart b := by
  simp only [extent?, Option.map_eq_some_iff]
  constructor
  · rintro h _ ⟨o, ho, rfl⟩ _ ⟨p, hp, rfl⟩
    have hstart : ¬ (p.position ≤ o.position ∧ o.position < p.position + q.width) := by
      rintro ⟨h1, h2⟩
      exact h o.position ⟨o, ho, Nat.le_refl _, by omega⟩ ⟨p, hp, h1, h2⟩
    have hstart' : ¬ (o.position ≤ p.position ∧ p.position < o.position + r.width) := by
      rintro ⟨h1, h2⟩
      exact h p.position ⟨o, ho, h1, h2⟩ ⟨p, hp, Nat.le_refl _, by omega⟩
    simp only [Extent.Apart]
    omega
  · rintro h i ⟨o, ho, ho1, ho2⟩ ⟨p, hp, hp1, hp2⟩
    rcases h _ ⟨o, ho, rfl⟩ _ ⟨p, hp, rfl⟩ with hlt | hlt <;> simp only at hlt <;> omega

end Registration

/-- The check passes exactly if no two entries share a bit. -/
theorem overlapping?_eq_none_iff {entries : List Registration}
    (hw : ∀ r ∈ entries, 0 < r.width) :
    overlapping? entries = none ↔ entries.Pairwise Registration.Apart := by
  have hle : ∀ a ∈ Extent.sort (entries.filterMap (·.extent?)), a.start ≤ a.stop := by
    intro a ha
    obtain ⟨r, -, hr⟩ := List.mem_filterMap.1 ((Extent.sort_perm _).mem_iff.1 ha)
    obtain ⟨o, -, rfl⟩ := Option.map_eq_some_iff.1 hr
    exact Nat.le_add_right _ _
  rw [overlapping?, Extent.clash?_eq_none_iff hle (Extent.sort_sorted _),
    (Extent.sort_perm _).pairwise_iff Extent.Apart.symm, List.pairwise_filterMap]
  constructor
  · intro h
    refine h.imp_of_mem ?_
    intro r q hr hq hrq
    exact (Registration.apart_iff (hw r hr) (hw q hq)).2 hrq
  · intro h
    refine h.imp_of_mem ?_
    intro r q hr hq hrq
    exact (Registration.apart_iff (hw r hr) (hw q hq)).1 hrq

theorem outcome_checkOverlap_eq_ok_iff {entries : List Registration}
    (hw : ∀ r ∈ entries, 0 < r.width) :
    (checkOverlap entries).outcome = .ok () ↔ entries.Pairwise Registration.Apart := by
  rw [← overlapping?_eq_none_iff hw, outcome_checkOverlap]
  cases overlapping? entries with
  | none => simp
  | some p => simp

end ServoBus
