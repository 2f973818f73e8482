import ServoBus.Proofs.Axis.Acceptance
import ServoBus.Proofs.Axis.Address

/-!
# What is on the wire

The sync managers that `Layout.build` makes are given by `wiring`: the channels stand in
their order, and the entries of each are cut into full PDOs with consecutive indices. From
the blocks that do not meet and from the table of addresses it follows that no index of a
PDO and no address of an object occurs twice, so every object that a channel exchanges is
mapped exactly once.
-/

namespace ServoBus.Axis

namespace Layout

open Sync (Builder Entry Pdo Manager)

/-- A list of PDOs holds a list of entries in its order. Their indices count up from the
first one, all of them but the last are full, and none is empty. -/
structure Cuts (limit first : Nat) (es : List Entry) (ps : List Pdo) : Prop where
  entries : ps.flatMap (·.entries) = es
  index : ∀ k (hk : k < ps.length), ps[k].index.toNat = first + k
  full : ∀ k (hk : k + 1 < ps.length), ps[k].entries.length = limit
  part : ∀ p ∈ ps, 0 < p.entries.length ∧ p.entries.length ≤ limit

theorem cuts_spread {limit first : Nat} (hl : 0 < limit) {es : List Entry} (hes : es ≠ [])
    (hb : first + pdosFor limit es.length ≤ UInt16.size) :
    Cuts limit first es (spread limit first es) := by
  have hlen : 0 < es.length := List.length_pos_iff.2 hes
  have hget (k : Nat) (hk : k < (spread limit first es).length) :
      (spread limit first es)[k] = piece limit first es k := by
    simp [spread]
  have hlt {k : Nat} (hk : k < pdosFor limit es.length) : k * limit < es.length := by
    have hk : k ≤ (es.length - 1) / limit := Nat.le_of_lt_succ hk
    have h := Nat.mul_le_of_le_div _ _ _ hk
    omega
  constructor
  · exact entries_spread hl first es
  · intro k hk
    rw [hget]
    rw [length_spread_pdos] at hk
    exact UInt16.toNat_ofNat_of_lt' (by omega)
  · intro k hk
    rw [hget]
    rw [length_spread_pdos] at hk
    have h := hlt hk
    rw [Nat.succ_mul] at h
    rw [piece, List.length_take, List.length_drop]
    omega
  · intro p hp
    obtain ⟨k, hk, rfl⟩ := mem_spread.1 hp
    have h := hlt hk
    rw [piece, List.length_take, List.length_drop]
    omega

/-- An entry that a channel exchanges in a cycle: its words, and its enabled objects that
are not sent by requests. -/
def Exchanged (o : Options) (c : Nat) (e : Entry) : Prop :=
  e = ⟨⟨base c + 0x40, 0⟩, 16⟩ ∨ e = ⟨⟨base c + 0x41, 0⟩, 16⟩ ∨
    ∃ f ∈ o.enabled c, ∃ d, f.object? = some d ∧ d.transfer ≠ .service ∧
      e = ⟨⟨d.index (base c), d.subindex⟩, d.format.width⟩

variable {o : Options} {device : String} {b : Builder}

theorem exchanged_iff {c : Nat} {e : Entry} :
    Exchanged o c e ↔ e ∈ Side.output.entries c (o.enabled c) ∨
      e ∈ Side.input.entries c (o.enabled c) := by
  rw [Side.mem_entries, Side.mem_entries]
  constructor
  · rintro (h | h | ⟨f, hf, d, hd, ht, he⟩)
    · exact .inl (.inl h)
    · exact .inr (.inl h)
    · cases hd' : d.transfer with
      | input => exact .inr (.inr ⟨f, hf, d, hd, hd', he⟩)
      | output => exact .inl (.inr ⟨f, hf, d, hd, hd', he⟩)
      | service => exact absurd hd' ht
  · rintro ((h | ⟨f, hf, d, hd, ht, he⟩) | (h | ⟨f, hf, d, hd, ht, he⟩))
    · exact .inl h
    · exact .inr (.inr ⟨f, hf, d, hd, by rw [ht]; decide, he⟩)
    · exact .inr (.inl h)
    · exact .inr (.inr ⟨f, hf, d, hd, by rw [ht]; decide, he⟩)

/-- The objects of one channel have different addresses. -/
theorem nodup_addresses_entries {s : Side} (hs : s = .output ∨ s = .input) {c : Nat}
    (hc : c < Param.maxChannels) (enabled : FeatureSet) :
    ((s.entries c enabled).map (·.address)).Nodup := by
  rw [Side.entries, List.map_cons, List.map_map, List.nodup_cons]
  constructor
  · intro h
    obtain ⟨⟨f, d⟩, hm, heq⟩ := List.mem_map.1 h
    obtain ⟨-, hd, -⟩ := FeatureSet.mem_objects.1 hm
    exact index_ne_word hc hc hd hs (congrArg ObjectAddress.index heq)
  · rw [List.Nodup, List.pairwise_map]
    have hfst := enabled.nodup_features_objects s.transfer
    rw [List.Nodup, List.pairwise_map] at hfst
    refine hfst.imp_of_mem ?_
    rintro ⟨f, d⟩ ⟨g, e⟩ hm hm' hne heq
    obtain ⟨-, hd, -⟩ := FeatureSet.mem_objects.1 hm
    obtain ⟨-, he, -⟩ := FeatureSet.mem_objects.1 hm'
    exact hne (index_inj hc hc hd he (congrArg ObjectAddress.index heq)
      (congrArg ObjectAddress.subindex heq)).2

/-- Objects of different channels have different addresses. -/
theorem channel_eq_of_address {s s' : Side} (hs : s = .output ∨ s = .input)
    (hs' : s' = .output ∨ s' = .input) {c c' : Nat} (hc : c < Param.maxChannels)
    (hc' : c' < Param.maxChannels) {enabled enabled' : FeatureSet} {e e' : Entry}
    (he : e ∈ s.entries c enabled) (he' : e' ∈ s'.entries c' enabled')
    (h : e.address = e'.address) : c = c' ∧ s = s' := by
  rcases Side.mem_entries.1 he with rfl | ⟨f, -, d, hd, ht, rfl⟩ <;>
    rcases Side.mem_entries.1 he' with rfl | ⟨f', -, d', hd', ht', rfl⟩
  · have hi := congrArg ObjectAddress.index h
    obtain ⟨hcc, hw⟩ := base_add_inj hc hc' (by rcases hs with rfl | rfl <;> decide)
      (by rcases hs' with rfl | rfl <;> decide) hi
    refine ⟨hcc, ?_⟩
    rcases hs with rfl | rfl <;> rcases hs' with rfl | rfl <;> first | rfl | cases hw
  · exact absurd (congrArg ObjectAddress.index h).symm (index_ne_word hc' hc hd' hs)
  · exact absurd (congrArg ObjectAddress.index h) (index_ne_word hc hc' hd hs')
  · obtain ⟨hcc, rfl⟩ := index_inj hc hc' hd hd' (congrArg ObjectAddress.index h)
      (congrArg ObjectAddress.subindex h)
    have hdd : d = d' := Option.some.inj (hd.symm.trans hd')
    rw [hdd] at ht
    have htt : s.transfer = s'.transfer := ht.symm.trans ht'
    refine ⟨hcc, ?_⟩
    rcases hs with rfl | rfl <;> rcases hs' with rfl | rfl <;> first | rfl | cases htt

theorem nodup_addresses_channels {s : Side} (hs : s = .output ∨ s = .input)
    (hc : o.channels ≤ Param.maxChannels) :
    (((List.range o.channels).flatMap fun c => s.entries c (o.enabled c)).map
      (·.address)).Nodup := by
  rw [List.map_flatMap, List.Nodup, List.pairwise_flatMap]
  constructor
  · intro c hmem
    exact nodup_addresses_entries hs (Nat.lt_of_lt_of_le (List.mem_range.1 hmem) hc) _
  · refine List.pairwise_lt_range.imp_of_mem ?_
    intro c c' hmem hmem' hlt a ha a' ha' heq
    obtain ⟨e, he, rfl⟩ := List.mem_map.1 ha
    obtain ⟨e', he', rfl⟩ := List.mem_map.1 ha'
    have hcc := (channel_eq_of_address hs hs (Nat.lt_of_lt_of_le (List.mem_range.1 hmem) hc)
      (Nat.lt_of_lt_of_le (List.mem_range.1 hmem') hc) he he' heq).1
    omega

/-- All that is on the wire, direction by direction. -/
theorem entries_wiring (hl : 0 < o.pdoEntryLimit) (device : String) :
    (Builder.ofWire device false (wiring o)).entries =
      ((List.range o.channels).flatMap fun c => Side.output.entries c (o.enabled c)) ++
        (List.range o.channels).flatMap fun c => Side.input.entries c (o.enabled c) := by
  have hmap : (wiring o).flatMap Manager.entries =
      (sidePdos o .output).flatMap (·.entries) ++ (sidePdos o .input).flatMap (·.entries) := by
    simp [wiring, Manager.entries]
  rw [Builder.entries_ofWire, hmap, sidePdos, sidePdos, entries_flatMap_channelPdos hl,
    entries_flatMap_channelPdos hl]

theorem nodup_addresses_wiring (hl : 0 < o.pdoEntryLimit) (hc : o.channels ≤ Param.maxChannels)
    (device : String) :
    ((Builder.ofWire device false (wiring o)).entries.map (·.address)).Nodup := by
  rw [entries_wiring hl, List.map_append, List.nodup_append]
  refine ⟨nodup_addresses_channels (.inl rfl) hc, nodup_addresses_channels (.inr rfl) hc, ?_⟩
  intro a ha a' ha' heq
  obtain ⟨e, he, rfl⟩ := List.mem_map.1 ha
  obtain ⟨e', he', rfl⟩ := List.mem_map.1 ha'
  obtain ⟨c, hmem, he⟩ := List.mem_flatMap.1 he
  obtain ⟨c', hmem', he'⟩ := List.mem_flatMap.1 he'
  have hss := (channel_eq_of_address (.inl rfl) (.inr rfl)
    (Nat.lt_of_lt_of_le (List.mem_range.1 hmem) hc)
    (Nat.lt_of_lt_of_le (List.mem_range.1 hmem') hc) he he' heq).2
  cases hss

/-- Exactly what the channels exchange is on the wire. -/
theorem mem_entries_wiring (hl : 0 < o.pdoEntryLimit) (device : String) (e : Entry) :
    e ∈ (Builder.ofWire device false (wiring o)).entries ↔
      ∃ c < o.channels, Exchanged o c e := by
  rw [entries_wiring hl, List.mem_append, List.mem_flatMap, List.mem_flatMap]
  constructor
  · rintro (⟨c, hmem, he⟩ | ⟨c, hmem, he⟩)
    · exact ⟨c, List.mem_range.1 hmem, exchanged_iff.2 (.inl he)⟩
    · exact ⟨c, List.mem_range.1 hmem, exchanged_iff.2 (.inr he)⟩
  · rintro ⟨c, hlt, he⟩
    rcases exchanged_iff.1 he with he | he
    · exact .inl ⟨c, List.mem_range.2 hlt, he⟩
    · exact .inr ⟨c, List.mem_range.2 hlt, he⟩

theorem lastPdo_lt {s : Side} (hs : s = .output ∨ s = .input) : s.lastPdo < UInt16.size := by
  rcases hs with rfl | rfl <;> decide

theorem cuts_channelPdos (hl : 0 < o.pdoEntryLimit) {s : Side} (hs : s = .output ∨ s = .input)
    {c : Nat} (hr : ∀ i ∈ places o s c, i ≤ 0x1ff) :
    Cuts o.pdoEntryLimit (s.firstPdo + c * o.increment.toNat) (s.entries c (o.enabled c))
      (channelPdos o s c) := by
  have hpos := pdoCount_pos hl s c
  have hlast := hr (c * o.increment.toNat + pdoCount o s c - 1) (mem_places.2 (by omega))
  have hsize := lastPdo_lt hs
  apply cuts_spread hl
  · exact List.cons_ne_nil _ _
  · rw [length_entries, pdosFor_demand hl]
    rw [Side.lastPdo] at hsize
    omega

/-- The PDOs of one direction have different indices if the blocks do not meet. -/
theorem nodup_indices_sidePdos (hl : 0 < o.pdoEntryLimit) {s : Side}
    (hs : s = .output ∨ s = .input) (hr : ∀ c < o.channels, ∀ i ∈ places o s c, i ≤ 0x1ff)
    (ha : ∀ c < o.channels, ∀ c' < c, (places o s c').Disjoint (places o s c)) :
    ((sidePdos o s).map (·.index)).Nodup := by
  rw [sidePdos, List.map_flatMap, List.Nodup, List.pairwise_flatMap]
  constructor
  · intro c hmem
    have hcut := cuts_channelPdos hl hs (hr c (List.mem_range.1 hmem))
    rw [List.pairwise_iff_getElem]
    intro j k hj hk hlt heq
    simp only [List.length_map] at hj hk
    simp only [List.getElem_map] at heq
    have heq := congrArg UInt16.toNat heq
    rw [hcut.index j hj, hcut.index k hk] at heq
    omega
  · refine List.pairwise_lt_range.imp_of_mem ?_
    intro c c' hmem hmem' hlt a hma a' hma' heq
    have hc' := List.mem_range.1 hmem'
    obtain ⟨p, hp, rfl⟩ := List.mem_map.1 hma
    obtain ⟨p', hp', rfl⟩ := List.mem_map.1 hma'
    obtain ⟨i, hi, hpi⟩ := index_of_mem_channelPdos hl (lastPdo_lt hs)
      (hr c (List.mem_range.1 hmem)) hp
    obtain ⟨i', hi', hpi'⟩ := index_of_mem_channelPdos hl (lastPdo_lt hs) (hr c' hc') hp'
    have hii : i = i' := by
      rw [heq, hpi'] at hpi
      omega
    rw [← hii] at hi'
    exact ha c' hc' c hlt hi hi'

theorem nodup_pdoIndices_wiring (hl : 0 < o.pdoEntryLimit) (h : Acceptable o)
    (device : String) : (Builder.ofWire device false (wiring o)).pdoIndices.Nodup := by
  obtain ⟨hrange, hrange'⟩ := Side.forall_mem_both.1 h.range
  obtain ⟨hapart, hapart'⟩ := Side.forall_mem_both.1 h.apart
  have hpdos : (Builder.ofWire device false (wiring o)).pdos =
      sidePdos o .output ++ sidePdos o .input := by
    rw [Builder.pdos_ofWire]
    simp [wiring]
  rw [Builder.pdoIndices, hpdos, List.map_append, List.nodup_append]
  refine ⟨nodup_indices_sidePdos hl (.inl rfl) hrange hapart,
    nodup_indices_sidePdos hl (.inr rfl) hrange' hapart', ?_⟩
  intro a hma a' hma' heq
  obtain ⟨p, hp, rfl⟩ := List.mem_map.1 hma
  obtain ⟨p', hp', rfl⟩ := List.mem_map.1 hma'
  obtain ⟨c, hmem, hp'⟩ := List.mem_flatMap.1 hp'
  obtain ⟨i, -, hpi⟩ := index_of_mem_channelPdos hl (by decide)
    (hrange' c (List.mem_range.1 hmem)) hp'
  exact index_ne_of_mem_output hl hrange hp i ((congrArg UInt16.toNat heq).trans hpi)

/-- What is built from options that are accepted. The finished description is `wiring`,
where each channel is cut into its own PDOs. No index of a PDO occurs twice, and what the
channels exchange is mapped exactly once, with nothing else. -/
theorem finish_of_build (hv : (o.validate device).outcome = .ok ())
    (hb : (build o).result ⟨device, [], false⟩ = (.ok (), b)) :
    b.finish.outcome = .ok (wiring o ++ [.terminator]) ∧
      (∀ s ∈ Side.both, ∀ c < o.channels,
        Cuts o.pdoEntryLimit (s.firstPdo + c * o.increment.toNat) (s.entries c (o.enabled c))
          (channelPdos o s c)) ∧
      b.pdoIndices.Nodup ∧ (b.entries.map (·.address)).Nodup ∧
      ∀ e, e ∈ b.entries ↔ ∃ c < o.channels, Exchanged o c e := by
  obtain ⟨hc, -, hl, -⟩ := Options.validate_eq_ok_iff.1 hv
  have hl := Nat.pos_of_ne_zero hl
  obtain ⟨hacc, rfl⟩ := (result_build_eq_ok_iff hv).1 hb
  have h := (accepts_iff_acceptable hl).1 hacc
  obtain ⟨hrange, hrange'⟩ := Side.forall_mem_both.1 h.range
  refine ⟨?_, ?_, nodup_pdoIndices_wiring hl h device, nodup_addresses_wiring hl hc device,
    mem_entries_wiring hl device⟩
  · rw [Builder.outcome_finish, Builder.failed_ofWire, Builder.managers_ofWire]
    rfl
  · rw [Side.forall_mem_both]
    constructor
    · intro c hlt
      exact cuts_channelPdos hl (.inl rfl) (hrange c hlt)
    · intro c hlt
      exact cuts_channelPdos hl (.inr rfl) (hrange' c hlt)

/-- Each axis exchanges a word and a position in each direction, and each of these has a
PDO of its own. -/
theorem finish_build_twoAxes :
    (twoAxes.validate "drive").outcome = .ok () ∧
      ∃ b, (build twoAxes).result ⟨"drive", [], false⟩ = (.ok (), b) ∧
        b.finish.outcome = .ok (wiring twoAxes ++ [.terminator]) ∧
        b.pdoIndices = [0x1600, 0x1601, 0x1603, 0x1604, 0x1a00, 0x1a01, 0x1a03, 0x1a04] ∧
        ∀ e, e ∈ b.entries ↔ ∃ c < 2, Exchanged twoAxes c e := by
  have hv : (twoAxes.validate "drive").outcome = .ok () := rfl
  have hb := Action.result_eq_ok_of_isOk
    (show ((build twoAxes).result ⟨"drive", [], false⟩).1.isOk = true by decide +kernel)
  obtain ⟨hfinish, -, -, -, hmem⟩ := finish_of_build hv hb
  exact ⟨hv, _, hb, hfinish, by decide +kernel, hmem⟩

end Layout

end ServoBus.Axis
