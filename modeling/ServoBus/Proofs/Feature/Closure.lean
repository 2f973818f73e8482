import Mathlib.Data.List.Basic
import ServoBus.Feature.Resolve

/-!
# Resolution as a closure

Passes over rules only ever add features, and what they add belongs to every set that is closed
under the rules. So when a pass changes nothing the set is the least closed one above the set at
the start, and it does not matter in which order the rules stand. Every other pass adds a feature
at least, and there are finitely many, hence passes come to an end.
-/

namespace ServoBus

namespace FeatureSet

variable {s t u : FeatureSet}

theorem subset_refl (s : FeatureSet) : s ⊆ s := subset_iff.2 fun _ h => h

theorem subset_trans (h : s ⊆ t) (h' : t ⊆ u) : s ⊆ u :=
  subset_iff.2 fun f hf => subset_iff.1 h' f (subset_iff.1 h f hf)

theorem subset_antisymm (h : s ⊆ t) (h' : t ⊆ s) : s = t :=
  ext_iff_mem.2 fun f => ⟨subset_iff.1 h f, subset_iff.1 h' f⟩

instance : Union FeatureSet := ⟨fun s t => ⟨s.bits ||| t.bits⟩⟩

theorem mem_union {f : Feature} : f ∈ s ∪ t ↔ f ∈ s ∨ f ∈ t := by
  have h : (s ∪ t).bits = s.bits ||| t.bits := rfl
  rw [mem_iff, mem_iff, mem_iff, h, BitVec.getLsbD_or, Bool.or_eq_true]

theorem union_subset_iff : s ∪ t ⊆ u ↔ s ⊆ u ∧ t ⊆ u := by
  simp only [subset_iff, mem_union, or_imp, forall_and]

theorem subset_union_left (s t : FeatureSet) : s ⊆ s ∪ t := (union_subset_iff.1 (subset_refl _)).1

theorem subset_union_right (s t : FeatureSet) : t ⊆ s ∪ t := (union_subset_iff.1 (subset_refl _)).2

/-- A larger set has more members. -/
theorem length_toList_lt (h : s ⊆ t) (hne : s ≠ t) : s.toList.length < t.toList.length := by
  have hsub : s.toList.Sublist t.toList :=
    List.monotone_filter_right Feature.all fun f hf => subset_iff.1 h f hf
  refine Nat.lt_of_le_of_ne hsub.length_le fun heq => hne (ext_iff_mem.2 fun f => ?_)
  rw [← mem_toList, ← mem_toList, hsub.eq_of_length heq]

theorem length_toList_le (s : FeatureSet) : s.toList.length ≤ Feature.count :=
  List.length_filter_le ..

/-- With the trigger of a rule the set has all that the rule implies. -/
def Closed (rules : List Implication) (s : FeatureSet) : Prop :=
  ∀ rule ∈ rules, rule.trigger ∈ s → ∀ f ∈ rule.implied, f ∈ s

end FeatureSet

namespace Implication

open FeatureSet (Closed)

variable {rule : Implication} {rules : List Implication} {s t : FeatureSet}

theorem subset_apply (s : FeatureSet) (rule : Implication) : s ⊆ apply s rule := by
  rw [FeatureSet.subset_iff, apply]
  intro f hf
  split
  · exact FeatureSet.mem_insertMany.2 (.inl hf)
  · exact hf

theorem apply_subset (hst : s ⊆ t) (hrule : rule.trigger ∈ t → ∀ f ∈ rule.implied, f ∈ t) :
    apply s rule ⊆ t := by
  rw [FeatureSet.subset_iff] at hst ⊢
  intro f hf
  rw [apply] at hf
  split at hf
  · next htrigger =>
    rcases FeatureSet.mem_insertMany.1 hf with hf | hf
    · exact hst f hf
    · exact hrule (hst _ htrigger) f hf
  · exact hst f hf

theorem subset_foldl_apply (rules : List Implication) (s : FeatureSet) :
    s ⊆ rules.foldl apply s := by
  induction rules generalizing s with
  | nil => exact s.subset_refl
  | cons rule rules ih => exact FeatureSet.subset_trans (subset_apply s rule) (ih _)

/-- A pass does not leave a closed set. -/
theorem foldl_apply_subset (hst : s ⊆ t) (ht : Closed rules t) : rules.foldl apply s ⊆ t := by
  induction rules generalizing s with
  | nil => exact hst
  | cons rule rules ih =>
    refine ih (apply_subset hst (ht rule List.mem_cons_self)) ?_
    exact fun r hr => ht r (List.mem_cons_of_mem rule hr)

/-- A pass adds what a rule implies if its trigger was there before. -/
theorem mem_foldl_apply (hrule : rule ∈ rules) (htrigger : rule.trigger ∈ s) {f : Feature}
    (hf : f ∈ rule.implied) : f ∈ rules.foldl apply s := by
  induction rules generalizing s with
  | nil => cases hrule
  | cons r rules ih =>
    rcases List.mem_cons.1 hrule with rfl | hrule
    · have hadded : f ∈ apply s rule := by
        rw [apply, if_pos htrigger]
        exact FeatureSet.mem_insertMany.2 (.inr hf)
      exact FeatureSet.subset_iff.1 (subset_foldl_apply rules _) f hadded
    · exact ih hrule (FeatureSet.subset_iff.1 (subset_apply s r) _ htrigger)

/-- A pass changes nothing exactly if the set is closed. -/
theorem foldl_apply_eq_self_iff : rules.foldl apply s = s ↔ Closed rules s := by
  constructor
  · intro h rule hrule htrigger f hf
    rw [← h]
    exact mem_foldl_apply hrule htrigger hf
  · intro h
    exact FeatureSet.subset_antisymm (foldl_apply_subset s.subset_refl h)
      (subset_foldl_apply rules s)

end Implication

namespace FeatureSet

variable {rules rules' : List Implication} {s t : FeatureSet}

/-- Passes over rules are repeated, beginning with a set, until a pass changes nothing, and then
the other set is there. -/
inductive Ends (rules : List Implication) : FeatureSet → FeatureSet → Prop
  | done {s : FeatureSet} : rules.foldl Implication.apply s = s → Ends rules s s
  | again {s t : FeatureSet} : rules.foldl Implication.apply s ≠ s →
      Ends rules (rules.foldl Implication.apply s) t → Ends rules s t

/-- What is there in the end is the least closed set above the first one. -/
structure IsClosure (rules : List Implication) (s t : FeatureSet) : Prop where
  above : s ⊆ t
  closed : Closed rules t
  least : ∀ u, s ⊆ u → Closed rules u → t ⊆ u

theorem IsClosure.unique (h : IsClosure rules s t) {t' : FeatureSet}
    (h' : IsClosure rules s t') : t = t' :=
  subset_antisymm (h.least t' h'.above h'.closed) (h'.least t h.above h.closed)

theorem Ends.isClosure (h : Ends rules s t) : IsClosure rules s t := by
  induction h with
  | done heq =>
    exact ⟨subset_refl _, Implication.foldl_apply_eq_self_iff.1 heq, fun _ hu _ => hu⟩
  | again _ _ ih =>
    refine ⟨subset_trans (Implication.subset_foldl_apply rules _) ih.above, ih.closed, ?_⟩
    intro u hu hclosed
    exact ih.least u (Implication.foldl_apply_subset hu hclosed) hclosed

/-- A pass that changes something adds a feature, and there are not more than all features. -/
theorem length_toList_lt_foldl_apply (h : rules.foldl Implication.apply s ≠ s) :
    s.toList.length < (rules.foldl Implication.apply s).toList.length ∧
      (rules.foldl Implication.apply s).toList.length ≤ Feature.count :=
  ⟨length_toList_lt (Implication.subset_foldl_apply rules s) (Ne.symm h), length_toList_le _⟩

/-- So passes come to an end, whatever the rules are. -/
theorem exists_ends (rules : List Implication) (s : FeatureSet) : ∃ t, Ends rules s t := by
  induction hn : Feature.count - s.toList.length using Nat.strongRecOn generalizing s with
  | ind n ih =>
    by_cases heq : rules.foldl Implication.apply s = s
    · exact ⟨s, .done heq⟩
    · obtain ⟨hlt, hle⟩ := length_toList_lt_foldl_apply heq
      obtain ⟨t, ht⟩ := ih (Feature.count - (rules.foldl Implication.apply s).toList.length)
        (by omega) _ rfl
      exact ⟨t, .again heq ht⟩

/-- As many passes as there are features that the set lacks are enough. -/
theorem ends_settle {n : Nat} (h : Feature.count ≤ n + s.toList.length) :
    Ends Implication.all s (settle n s) := by
  induction n generalizing s with
  | zero =>
    -- no feature is left that a pass could add
    refine .done (Decidable.byContradiction fun heq => ?_)
    obtain ⟨hlt, hle⟩ := length_toList_lt_foldl_apply heq
    omega
  | succ n ih =>
    rw [settle]
    split
    · next heq => exact .done heq
    · next heq =>
      obtain ⟨hlt, -⟩ := length_toList_lt_foldl_apply heq
      refine .again heq (ih ?_)
      show Feature.count ≤ n + (Implication.all.foldl Implication.apply s).toList.length
      omega

theorem ends_resolve (s : FeatureSet) : Ends Implication.all s s.resolve :=
  ends_settle (Nat.le_add_right ..)

theorem isClosure_resolve (s : FeatureSet) : IsClosure Implication.all s s.resolve :=
  (ends_resolve s).isClosure

theorem Closed.congr (h : ∀ rule, rule ∈ rules' ↔ rule ∈ rules) :
    Closed rules' s ↔ Closed rules s := by
  simp only [Closed, h]

/-- The closure depends on the rules only, not on their order. -/
theorem IsClosure.congr (h : ∀ rule, rule ∈ rules' ↔ rule ∈ rules) (hc : IsClosure rules s t) :
    IsClosure rules' s t where
  above := hc.above
  closed := (Closed.congr h).2 hc.closed
  least u hu hu' := hc.least u hu ((Closed.congr h).1 hu')

theorem resolve_subset (h : s ⊆ t) (ht : Closed Implication.all t) : s.resolve ⊆ t :=
  (isClosure_resolve s).least t h ht

theorem resolve_mono (h : s ⊆ t) : s.resolve ⊆ t.resolve :=
  resolve_subset (subset_trans h (isClosure_resolve t).above) (isClosure_resolve t).closed

theorem resolve_resolve (s : FeatureSet) : s.resolve.resolve = s.resolve :=
  subset_antisymm (resolve_subset (subset_refl _) (isClosure_resolve s).closed)
    (isClosure_resolve s.resolve).above

theorem Closed.union (hs : Closed rules s) (ht : Closed rules t) : Closed rules (s ∪ t) := by
  intro rule hrule htrigger f hf
  rw [mem_union] at htrigger ⊢
  exact htrigger.imp (fun h => hs rule hrule h f hf) fun h => ht rule hrule h f hf

/-- As a rule has one trigger, nothing is implied by two sets together that neither implies. -/
theorem resolve_union (s t : FeatureSet) : (s ∪ t).resolve = s.resolve ∪ t.resolve := by
  have hs := isClosure_resolve s
  have ht := isClosure_resolve t
  apply subset_antisymm
  · refine resolve_subset (union_subset_iff.2 ⟨?_, ?_⟩) (hs.closed.union ht.closed)
    · exact subset_trans hs.above (subset_union_left _ _)
    · exact subset_trans ht.above (subset_union_right _ _)
  · exact union_subset_iff.2
      ⟨resolve_mono (subset_union_left s t), resolve_mono (subset_union_right s t)⟩

/-- What a rule implies is there even if it was disabled, since no rule implies its trigger. -/
theorem mem_resolve_assign_false {rule : Implication} (hrule : rule ∈ Implication.all)
    (htrigger : rule.trigger ∈ s) {f : Feature} (hf : f ∈ rule.implied) :
    f ∈ (s.assign f false).resolve := by
  have hne : ∀ rule ∈ Implication.all, rule.trigger ∉ rule.implied := by decide
  have hkept : rule.trigger ∈ s.assign f false := by
    refine mem_erase.2 ⟨htrigger, ?_⟩
    rintro rfl
    exact hne rule hrule hf
  have hclosure := isClosure_resolve (s.assign f false)
  exact hclosure.closed rule hrule (subset_iff.1 hclosure.above _ hkept) f hf

/-- Resolution by rules: for every request the passes end with its closure, and so resolution is a
closure operator that preserves unions. A request cannot take away what it implies. -/
structure ResolvedBy (rules : List Implication) : Prop where
  ends : ∀ s t, Ends rules s t ↔ t = s.resolve
  closure : ∀ s, IsClosure rules s s.resolve
  mono : ∀ s t : FeatureSet, s ⊆ t → s.resolve ⊆ t.resolve
  idempotent : ∀ s : FeatureSet, s.resolve.resolve = s.resolve
  union : ∀ s t : FeatureSet, (s ∪ t).resolve = s.resolve ∪ t.resolve
  disabled : ∀ s : FeatureSet, ∀ rule ∈ rules, rule.trigger ∈ s → ∀ f ∈ rule.implied,
    f ∈ (s.assign f false).resolve

/-- In whatever order the rules are applied, passes end with the same closure. -/
theorem resolvedBy_of_perm {rules : List Implication} (h : rules.Perm Implication.all) :
    ResolvedBy rules where
  ends s t := by
    have hclosure := (isClosure_resolve s).congr fun _ => h.mem_iff
    constructor
    · intro ht
      exact ht.isClosure.unique hclosure
    · rintro rfl
      obtain ⟨t, ht⟩ := exists_ends rules s
      rwa [ht.isClosure.unique hclosure] at ht
  closure s := (isClosure_resolve s).congr fun _ => h.mem_iff
  mono _ _ := resolve_mono
  idempotent := resolve_resolve
  union := resolve_union
  disabled _ _ hrule htrigger _ := mem_resolve_assign_false (h.mem_iff.1 hrule) htrigger

/-- The rules backwards lead to the same sets: with homing and a mode that was set, all that is
needed is there, although reading the mode back was disabled. -/
theorem resolvedBy_reverse :
    Implication.all.reverse.Perm Implication.all ∧ ResolvedBy Implication.all.reverse ∧
      Ends Implication.all.reverse
        ((ofList [.hm, .opmode, .opmodeDisplay]).assign .opmodeDisplay false)
        (ofList [.hm, .opmode, .opmodeDisplay, .homeMethod, .homeVelocityFast, .homeVelocitySlow,
          .homeAccel]) := by
  have hperm : Implication.all.reverse.Perm Implication.all := List.reverse_perm _
  have hresolved := resolvedBy_of_perm hperm
  exact ⟨hperm, hresolved, (hresolved.ends _ _).2 (by decide +kernel)⟩

end FeatureSet

end ServoBus
