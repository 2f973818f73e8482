import Mathlib.Data.List.Forall2
import ServoBus.Proofs.Axis.Channel
import ServoBus.Proofs.Axis.Layout

/-!
# The channels of a drive

A drive registers the entries of its channels one channel after the other. At the end all
channels are wired, and the entries of the drive are those of the channels. Their addresses
are distinct, and none of them is empty.
-/

namespace ServoBus.Axis

variable {site : Site}

/-- All entries of a drive in their order. -/
def driveEntries (site : Site) (l : List (ChannelOptions × Nat)) : List Registration :=
  l.flatMap fun p => channelEntries site (base p.2) p.1.requested.resolve

theorem mem_channelEntries {b : UInt16} {enabled : FeatureSet} {e : Registration} :
    e ∈ channelEntries site b enabled ↔
      e = wordEntry site b .output ∨ e = wordEntry site b .input ∨
        ∃ f d, (f, d) ∈ mappedObjects enabled ∧ e = objectEntry site b d := by
  rw [channelEntries, List.mem_cons, List.mem_cons, List.mem_map]
  constructor
  · rintro (h | h | ⟨⟨f, d⟩, hd, rfl⟩)
    · exact .inl h
    · exact .inr (.inl h)
    · exact .inr (.inr ⟨f, d, hd, rfl⟩)
  · rintro (h | h | ⟨f, d, hd, rfl⟩)
    · exact .inl h
    · exact .inr (.inl h)
    · exact .inr (.inr ⟨(f, d), hd, rfl⟩)

/-- The entry of a channel is registered with at least one bit and at most 32. -/
theorem width_of_mem_channelEntries {b : UInt16} {enabled : FeatureSet} {e : Registration}
    (he : e ∈ channelEntries site b enabled) : e.width ∈ [8, 16, 32] := by
  rcases mem_channelEntries.1 he with rfl | rfl | ⟨f, d, hd, rfl⟩
  · show 16 ∈ [8, 16, 32]
    decide
  · show 16 ∈ [8, 16, 32]
    decide
  · exact Feature.width_mem (mem_mappedObjects.1 hd).2.1

theorem nodup_mappedObjects (enabled : FeatureSet) :
    ((mappedObjects enabled).map Prod.fst).Nodup := by
  rw [mappedObjects, List.map_append, List.nodup_append]
  refine ⟨enabled.nodup_features_objects _, enabled.nodup_features_objects _, ?_⟩
  intro f hf g hg heq
  obtain ⟨⟨f, d⟩, hd, rfl⟩ := List.mem_map.1 hf
  obtain ⟨⟨g, e⟩, he, rfl⟩ := List.mem_map.1 hg
  simp only at heq
  subst heq
  obtain ⟨-, hd, ht⟩ := FeatureSet.mem_objects.1 hd
  obtain ⟨-, he, ht'⟩ := FeatureSet.mem_objects.1 he
  cases hd.symm.trans he
  cases ht.symm.trans ht'

theorem nodup_addresses_channelEntries {n : Nat} (hn : n < Param.maxChannels)
    (enabled : FeatureSet) :
    ((channelEntries site (base n) enabled).map (·.address)).Nodup := by
  rw [channelEntries, List.map_cons, List.map_cons, List.map_map, List.nodup_cons,
    List.nodup_cons]
  refine ⟨?_, ?_, ?_⟩
  · rw [List.mem_cons]
    rintro (h | h)
    · have hw := (base_add_inj hn hn (by decide) (by decide)
        (congrArg ObjectAddress.index h)).2
      cases hw
    · obtain ⟨⟨f, d⟩, hd, heq⟩ := List.mem_map.1 h
      exact index_ne_word hn hn (mem_mappedObjects.1 hd).2.1 (.inl rfl)
        (congrArg ObjectAddress.index heq)
  · intro h
    obtain ⟨⟨f, d⟩, hd, heq⟩ := List.mem_map.1 h
    exact index_ne_word hn hn (mem_mappedObjects.1 hd).2.1 (.inr rfl)
      (congrArg ObjectAddress.index heq)
  · rw [List.Nodup, List.pairwise_map]
    have hfst := nodup_mappedObjects enabled
    rw [List.Nodup, List.pairwise_map] at hfst
    refine hfst.imp_of_mem ?_
    rintro ⟨f, d⟩ ⟨g, e⟩ hd he hne heq
    exact hne (index_inj hn hn (mem_mappedObjects.1 hd).2.1 (mem_mappedObjects.1 he).2.1
      (congrArg ObjectAddress.index heq) (congrArg ObjectAddress.subindex heq)).2

/-- An address belongs to one channel only. -/
theorem channel_eq_of_mem_channelEntries {n n' : Nat} (hn : n < Param.maxChannels)
    (hn' : n' < Param.maxChannels) {enabled enabled' : FeatureSet} {e e' : Registration}
    (he : e ∈ channelEntries site (base n) enabled)
    (he' : e' ∈ channelEntries site (base n') enabled') (h : e.address = e'.address) :
    n = n' := by
  have hplace {n : Nat} {enabled : FeatureSet} {e : Registration}
      (he : e ∈ channelEntries site (base n) enabled) :
      ∃ i : UInt16, i.toNat < 0x800 ∧ e.address.index = base n + i := by
    rcases mem_channelEntries.1 he with rfl | rfl | ⟨f, d, hd, rfl⟩
    · exact ⟨0x40, by decide, rfl⟩
    · exact ⟨0x41, by decide, rfl⟩
    · exact ⟨d.offset, Feature.offset_lt (mem_mappedObjects.1 hd).2.1, rfl⟩
  obtain ⟨i, hi, hidx⟩ := hplace he
  obtain ⟨j, hj, hidx'⟩ := hplace he'
  rw [h, hidx'] at hidx
  exact (base_add_inj hn' hn hj hi hidx).1.symm

/-- Elements that are numbered have the numbers in their order. -/
theorem pairwise_zipIdx {α : Type} (l : List α) : l.zipIdx.Pairwise fun p q => p.2 < q.2 := by
  have h := @List.pairwise_lt_range' 0 l.length 1 (by decide)
  rwa [← List.zipIdx_map_snd 0 l, List.pairwise_map] at h

/-- The entries of all channels have different addresses. -/
theorem nodup_addresses_driveEntries {l : List ChannelOptions}
    (hl : l.length ≤ Param.maxChannels) :
    ((driveEntries site l.zipIdx).map (·.address)).Nodup := by
  have hlt {p : ChannelOptions × Nat} (hp : p ∈ l.zipIdx) : p.2 < Param.maxChannels := by
    have := List.snd_lt_of_mem_zipIdx hp
    omega
  rw [driveEntries, List.map_flatMap, List.Nodup, List.pairwise_flatMap]
  constructor
  · intro p hp
    exact nodup_addresses_channelEntries (hlt hp) _
  · refine (pairwise_zipIdx l).imp_of_mem ?_
    intro p q hp hq hpq a ha a' ha' heq
    obtain ⟨e, he, rfl⟩ := List.mem_map.1 ha
    obtain ⟨e', he', rfl⟩ := List.mem_map.1 ha'
    have := channel_eq_of_mem_channelEntries (hlt hp) (hlt hq) he he' heq
    omega

theorem width_of_mem_driveEntries {l : List (ChannelOptions × Nat)} {e : Registration}
    (he : e ∈ driveEntries site l) : e.width ∈ [8, 16, 32] := by
  obtain ⟨p, -, he⟩ := List.mem_flatMap.1 he
  exact width_of_mem_channelEntries he

section Setup

variable {μ : Type} [Master μ]

theorem of_result_registerAll {l : List (ChannelOptions × Nat)} {cs : List Channel}
    {w w' : Workspace μ}
    (h : Action.result (l.mapM fun (c, n) => Channel.register site n c) w = (.ok cs, w')) :
    w'.regs = w.regs.extend (driveEntries site l) ∧ w.pins.Grows w'.pins ∧
      List.Forall₂ (fun p c => c.Wired site p.2 p.1 w'.regs w'.pins) l cs ∧
      ∀ c ∈ cs, c.Serves site w'.pins := by
  induction l generalizing w cs with
  | nil =>
    rw [Action.result_mapM_nil] at h
    cases h
    refine ⟨?_, refl_of PinTable.Grows _, .nil, fun c hc => (List.not_mem_nil hc).elim⟩
    simp [driveEntries, Registrations.extend]
  | cons p l ih =>
    obtain ⟨c, w₁, cs, hc, hcs, rfl⟩ := Action.result_mapM_cons_eq_ok_iff.1 h
    obtain ⟨hregs, hpins, hwired, hserves⟩ := Channel.of_result_register hc
    obtain ⟨hregs', hpins', hwired', hserves'⟩ := ih hcs
    refine ⟨?_, trans_of PinTable.Grows hpins hpins', .cons (hwired.mono ?_ hpins') hwired', ?_⟩
    · rw [hregs', hregs]
      simp [driveEntries, Registrations.extend]
    · rw [hregs', Registrations.wanted_extend]
      exact List.prefix_append ..
    · intro c' hc'
      rcases List.mem_cons.1 hc' with rfl | hc'
      · exact hserves.mono hpins'
      · exact hserves' c' hc'

/-- The steps of a configuration that succeeded: sync managers and channels. -/
theorem exists_of_result_configure {o : Options} {cs : List Channel} {w w' : Workspace μ}
    (h : (configure site o).result w = (.ok cs, w')) :
    ∃ b, (Layout.build o).result w.syncs = (.ok (), b) ∧
      Action.result (o.active.zipIdx.mapM fun (c, n) => Channel.register site n c)
        { w with syncs := b } = (.ok cs, w') := by
  rw [configure] at h
  simp only [Action.result_bind_eq_ok_iff] at h
  obtain ⟨_, w₁, hv, _, w₂, hs, hcs⟩ := h
  obtain ⟨-, rfl⟩ := Action.result_ofChecked_eq_ok_iff.1 hv
  obtain ⟨b, hb, rfl⟩ := Action.result_zoom_eq_ok_iff.1 hs
  exact ⟨b, hb, hcs⟩

/-- Configuring a drive registers exactly the entries of its channels and wires them. -/
theorem of_result_configure {o : Options} {cs : List Channel} {w w' : Workspace μ}
    (h : (configure site o).result w = (.ok cs, w')) :
    o.active.length ≤ Param.maxChannels ∧
      w'.regs = w.regs.extend (driveEntries site o.active.zipIdx) ∧ w.pins.Grows w'.pins ∧
      List.Forall₂ (fun p c => c.Wired site p.2 p.1 w'.regs w'.pins) o.active.zipIdx cs ∧
      ∀ c ∈ cs, c.Serves site w'.pins := by
  obtain ⟨b, -, hcs⟩ := exists_of_result_configure h
  have hall := of_result_registerAll hcs
  refine ⟨?_, hall⟩
  rw [o.length_active]
  exact Nat.min_le_right ..

end Setup

end ServoBus.Axis
