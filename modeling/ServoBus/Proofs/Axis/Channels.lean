import Mathlib.Algebra.GroupWithZero.Nat
import ServoBus.Proofs.Axis.Flow

/-!
# The channels of one direction

The channels of a drive are added one after the other to the same sync manager. Each has
a block of places in the range of PDOs of its direction. `Accepts` says when the first
channels find a place behind a site: each of them on its own, their blocks next to each
other, and all of them together in what the slave can describe.
-/

namespace ServoBus.Axis

/-- The objects of a channel, with all that the requested features imply. -/
def Options.enabled (o : Options) (c : Nat) : FeatureSet :=
  ((o.channel[c]?).map (·.requested.resolve)).getD ∅

namespace Layout

open Sync (Builder Entry Pdo)

/-- How many entries a channel has in one direction: a control word or status word, and
the objects that are exchanged. -/
def demand (o : Options) (s : Side) (c : Nat) : Nat :=
  1 + ((o.enabled c).objects s.transfer).length

/-- How many PDOs these entries fill, with the last one not always full. -/
def pdoCount (o : Options) (s : Side) (c : Nat) : Nat :=
  (demand o s c + o.pdoEntryLimit - 1) / o.pdoEntryLimit

/-- The places of these PDOs in the range of their direction. -/
def places (o : Options) (s : Side) (c : Nat) : List Nat :=
  List.range' (c * o.increment.toNat) (pdoCount o s c)

/-- The PDOs of a channel, in the order of the wire. -/
def channelPdos (o : Options) (s : Side) (c : Nat) : List Pdo :=
  spread o.pdoEntryLimit (s.firstPdo + c * o.increment.toNat) (s.entries c (o.enabled c))

variable {o : Options} {s : Side} {x : Site} {b : Builder}

theorem length_entries (o : Options) (s : Side) (c : Nat) :
    (s.entries c (o.enabled c)).length = demand o s c := by
  simp [Side.entries, demand, Nat.add_comm]

theorem pdosFor_demand (hl : 0 < o.pdoEntryLimit) (s : Side) (c : Nat) :
    pdosFor o.pdoEntryLimit (demand o s c) = pdoCount o s c :=
  pdosFor_eq hl (by rw [demand]; omega)

theorem pdoCount_pos (hl : 0 < o.pdoEntryLimit) (s : Side) (c : Nat) : 0 < pdoCount o s c := by
  rw [← pdosFor_demand hl]
  exact pdosFor_pos _ _

theorem mem_places {c i : Nat} :
    i ∈ places o s c ↔
      c * o.increment.toNat ≤ i ∧ i < c * o.increment.toNat + pdoCount o s c :=
  List.mem_range'_1

theorem length_channelPdos (hl : 0 < o.pdoEntryLimit) (s : Side) (c : Nat) :
    (channelPdos o s c).length = pdoCount o s c := by
  rw [channelPdos, length_spread_pdos, length_entries, pdosFor_demand hl]

theorem entries_channelPdos (hl : 0 < o.pdoEntryLimit) (s : Side) (c : Nat) :
    (channelPdos o s c).flatMap (·.entries) = s.entries c (o.enabled c) :=
  entries_spread hl _ _

theorem length_flatMap_channelPdos (hl : 0 < o.pdoEntryLimit) (s : Side) (cs : List Nat) :
    (cs.flatMap (channelPdos o s)).length = (cs.map (pdoCount o s)).sum := by
  rw [List.length_flatMap]
  congr 1
  apply List.map_congr_left
  intro c _
  exact length_channelPdos hl s c

theorem entries_flatMap_channelPdos (hl : 0 < o.pdoEntryLimit) (s : Side) (cs : List Nat) :
    (cs.flatMap (channelPdos o s)).flatMap (·.entries) =
      cs.flatMap fun c => s.entries c (o.enabled c) := by
  rw [List.flatMap_assoc]
  congr 1
  funext c
  exact entries_channelPdos hl s c

theorem length_entries_flatMap_channelPdos (hl : 0 < o.pdoEntryLimit) (s : Side)
    (cs : List Nat) :
    ((cs.flatMap (channelPdos o s)).flatMap (·.entries)).length = (cs.map (demand o s)).sum := by
  rw [entries_flatMap_channelPdos hl, List.length_flatMap]
  congr 1
  apply List.map_congr_left
  intro c _
  exact length_entries o s c

/-- The indices of the PDOs of a channel are the places of the channel. -/
theorem index_of_mem_channelPdos (hl : 0 < o.pdoEntryLimit) (hs : s.lastPdo < UInt16.size)
    {c : Nat} (hr : ∀ i ∈ places o s c, i ≤ 0x1ff) {p : Pdo} (hp : p ∈ channelPdos o s c) :
    ∃ i ∈ places o s c, p.index.toNat = s.firstPdo + i := by
  have hpos := pdoCount_pos hl s c
  have hlast : c * o.increment.toNat + pdoCount o s c - 1 ≤ 0x1ff :=
    hr _ (mem_places.2 (by omega))
  have hsize : s.firstPdo + c * o.increment.toNat +
      pdosFor o.pdoEntryLimit (s.entries c (o.enabled c)).length ≤ UInt16.size := by
    rw [length_entries, pdosFor_demand hl]
    rw [Side.lastPdo] at hs
    omega
  obtain ⟨k, hk, hi⟩ := index_of_mem_spread hsize hp
  rw [length_entries, pdosFor_demand hl] at hk
  exact ⟨c * o.increment.toNat + k, mem_places.2 (by omega), by omega⟩

/-- Each place of a channel is the index of one of its PDOs. -/
theorem exists_index_eq (hl : 0 < o.pdoEntryLimit) (hs : s.lastPdo < UInt16.size)
    {c i : Nat} (hi : i ∈ places o s c) (hr : i ≤ 0x1ff) :
    ∃ p ∈ channelPdos o s c, p.index.toNat = s.firstPdo + i := by
  obtain ⟨hfrom, hto⟩ := mem_places.1 hi
  refine ⟨piece o.pdoEntryLimit (s.firstPdo + c * o.increment.toNat)
    (s.entries c (o.enabled c)) (i - c * o.increment.toNat), ?_, ?_⟩
  · apply mem_spread.2
    refine ⟨i - c * o.increment.toNat, ?_, rfl⟩
    rw [length_entries, pdosFor_demand hl]
    omega
  · rw [Side.lastPdo] at hs
    have hsum : s.firstPdo + c * o.increment.toNat + (i - c * o.increment.toNat) =
        s.firstPdo + i := by omega
    rw [piece, hsum]
    exact UInt16.toNat_ofNat_of_lt' (by omega)

/-- A channel fits behind a site exactly if it has not too many PDOs, its places are in the
range and free, and there is room for its nodes. -/
theorem fits_demand_iff (hl : 0 < o.pdoEntryLimit) (c : Nat) :
    Fits o s (s.firstPdo + c * o.increment.toNat) x (demand o s c) ↔
      pdoCount o s c ≤ allowedPdos o ∧ (∀ i ∈ places o s c, i ≤ 0x1ff) ∧
        (∀ i ∈ places o s c, ∀ p ∈ x.pdos, p.index.toNat ≠ s.firstPdo + i) ∧
        x.pdos.length + pdoCount o s c ≤ Sync.pdoLimit ∧
        x.entries.length + demand o s c ≤ Sync.entryLimit := by
  have hpos := pdoCount_pos hl s c
  have hcount := pdosFor_demand hl s c
  constructor
  · intro h
    have hlast := h.last
    have hfresh := h.fresh
    rw [hcount] at hlast hfresh
    rw [Side.lastPdo] at hlast
    refine ⟨hcount ▸ h.pdos, ?_, ?_, hcount ▸ h.room, h.entries⟩
    · intro i hi
      obtain ⟨hfrom, hto⟩ := mem_places.1 hi
      omega
    · intro i hi p hp
      obtain ⟨hfrom, hto⟩ := mem_places.1 hi
      have hne := hfresh (i - c * o.increment.toNat) (by omega) p hp
      omega
  · rintro ⟨hpdos, hrange, hfresh, hroom, hentries⟩
    have hlast := hrange (c * o.increment.toNat + pdoCount o s c - 1) (mem_places.2 (by omega))
    refine ⟨by rwa [hcount], ?_, ?_, by rwa [hcount], hentries⟩
    · rw [hcount, Side.lastPdo]
      omega
    · intro k hk p hp
      rw [hcount] at hk
      have hne := hfresh (c * o.increment.toNat + k) (mem_places.2 (by omega)) p hp
      rwa [← Nat.add_assoc] at hne

/-- The places of a channel are free behind other channels if they are free without them,
and the blocks do not meet. -/
theorem fresh_add_iff (hl : 0 < o.pdoEntryLimit) (hs : s.lastPdo < UInt16.size)
    {cs : List Nat} (hr : ∀ c ∈ cs, ∀ i ∈ places o s c, i ≤ 0x1ff) (is : List Nat) :
    (∀ i ∈ is, ∀ p ∈ (x.add (cs.flatMap (channelPdos o s))).pdos,
        p.index.toNat ≠ s.firstPdo + i) ↔
      (∀ i ∈ is, ∀ p ∈ x.pdos, p.index.toNat ≠ s.firstPdo + i) ∧
        ∀ c ∈ cs, (places o s c).Disjoint is := by
  constructor
  · intro h
    constructor
    · intro i hi p hp
      apply h i hi p
      rw [Site.pdos_add]
      exact List.mem_append_left _ hp
    · intro c hc i hic hi
      obtain ⟨p, hp, hpi⟩ := exists_index_eq hl hs hic (hr c hc i hic)
      apply h i hi p _ hpi
      rw [Site.pdos_add, List.mem_append, List.mem_flatMap]
      exact .inr ⟨c, hc, hp⟩
  · rintro ⟨hfresh, hdisj⟩ i hi p hp
    rw [Site.pdos_add, List.mem_append, List.mem_flatMap] at hp
    rcases hp with hp | ⟨c, hc, hp⟩
    · exact hfresh i hi p hp
    · obtain ⟨j, hj, hpj⟩ := index_of_mem_channelPdos hl hs (hr c hc) hp
      intro heq
      have hij : j = i := by omega
      rw [hij] at hj
      exact hdisj c hc hj hi

/-- What has to hold for the first `m` channels to find a place behind a site. -/
structure Accepts (o : Options) (s : Side) (x : Site) (m : Nat) : Prop where
  limit : ∀ c < m, demand o s c ≤ s.limit o
  pdos : ∀ c < m, pdoCount o s c ≤ allowedPdos o
  range : ∀ c < m, ∀ i ∈ places o s c, i ≤ 0x1ff
  apart : ∀ c < m, ∀ c' < c, (places o s c').Disjoint (places o s c)
  fresh : ∀ c < m, ∀ i ∈ places o s c, ∀ p ∈ x.pdos, p.index.toNat ≠ s.firstPdo + i
  room : x.pdos.length + ((List.range m).map (pdoCount o s)).sum ≤ Sync.pdoLimit
  entries : x.entries.length + ((List.range m).map (demand o s)).sum ≤ Sync.entryLimit

theorem accepts_zero_iff :
    Accepts o s x 0 ↔
      x.pdos.length ≤ Sync.pdoLimit ∧ x.entries.length ≤ Sync.entryLimit := by
  constructor
  · intro h
    exact ⟨h.room, h.entries⟩
  · rintro ⟨hroom, hentries⟩
    constructor
    case room => exact hroom
    case entries => exact hentries
    all_goals
      intro c hc
      exact absurd hc (Nat.not_lt_zero c)

theorem sum_map_range_succ (f : Nat → Nat) (m : Nat) :
    ((List.range (m + 1)).map f).sum = ((List.range m).map f).sum + f m := by
  rw [List.range_succ, List.map_append, List.sum_append, List.map_singleton, List.sum_singleton]

theorem Accepts.of_succ {m : Nat} (h : Accepts o s x (m + 1)) : Accepts o s x m where
  limit c hc := h.limit c (Nat.lt_succ_of_lt hc)
  pdos c hc := h.pdos c (Nat.lt_succ_of_lt hc)
  range c hc := h.range c (Nat.lt_succ_of_lt hc)
  apart c hc := h.apart c (Nat.lt_succ_of_lt hc)
  fresh c hc := h.fresh c (Nat.lt_succ_of_lt hc)
  room := by
    have hroom := h.room
    rw [sum_map_range_succ] at hroom
    omega
  entries := by
    have hentries := h.entries
    rw [sum_map_range_succ] at hentries
    omega

/-- A channel more finds a place exactly if it starts in the range, does not ask for too
much, and fits behind the channels before it. -/
theorem accepts_succ_iff (hl : 0 < o.pdoEntryLimit) (hs : s.lastPdo < UInt16.size) {m : Nat}
    (h : Accepts o s x m) :
    Accepts o s x (m + 1) ↔
      m * o.increment.toNat ≤ 0x1ff ∧ demand o s m ≤ s.limit o ∧
        Fits o s (s.firstPdo + m * o.increment.toNat)
          (x.add ((List.range m).flatMap (channelPdos o s))) (demand o s m) := by
  have hpos := pdoCount_pos hl s m
  have hr : ∀ c ∈ List.range m, ∀ i ∈ places o s c, i ≤ 0x1ff := by
    intro c hc
    exact h.range c (List.mem_range.1 hc)
  rw [fits_demand_iff hl, fresh_add_iff hl hs hr, Site.pdos_add, List.length_append,
    length_flatMap_channelPdos hl, Site.entries_add, List.length_append,
    length_entries_flatMap_channelPdos hl, Nat.add_assoc, Nat.add_assoc,
    ← sum_map_range_succ, ← sum_map_range_succ]
  constructor
  · intro h'
    have hm := Nat.lt_succ_self m
    have hfirst := h'.range m hm _ (mem_places.2 ⟨Nat.le_refl _, by omega⟩)
    refine ⟨hfirst, h'.limit m hm, h'.pdos m hm, h'.range m hm, ⟨h'.fresh m hm, ?_⟩,
      h'.room, h'.entries⟩
    intro c hc
    exact h'.apart m hm c (List.mem_range.1 hc)
  · rintro ⟨-, hlimit, hpdos, hrange, ⟨hfresh, hapart⟩, hroom, hentries⟩
    constructor
    · exact Nat.forall_lt_succ_right.2 ⟨h.limit, hlimit⟩
    · exact Nat.forall_lt_succ_right.2 ⟨h.pdos, hpdos⟩
    · exact Nat.forall_lt_succ_right.2 ⟨h.range, hrange⟩
    · refine Nat.forall_lt_succ_right.2 ⟨h.apart, ?_⟩
      intro c hc
      exact hapart c (List.mem_range.2 hc)
    · exact Nat.forall_lt_succ_right.2 ⟨h.fresh, hfresh⟩
    · exact hroom
    · exact hentries

/-- The first channels are taken exactly if they find a place, and then their PDOs stand
behind the site, channel by channel. -/
theorem result_addChannels_eq_ok_iff (hl : 0 < o.pdoEntryLimit) (hp : o.pdoLimit ≠ 0)
    (hs : s.lastPdo < UInt16.size) (hroom : x.pdos.length ≤ Sync.pdoLimit)
    (hx : x.entries.length ≤ Sync.entryLimit) (m : Nat) :
    Action.result (forM (List.range m) fun c => addChannel o s c (o.enabled c)) x.builder =
        (.ok (), b) ↔
      Accepts o s x m ∧ b = (x.add ((List.range m).flatMap (channelPdos o s))).builder := by
  induction m generalizing b with
  | zero =>
    have h0 := (@accepts_zero_iff o s x).2 ⟨hroom, hx⟩
    rw [List.range_zero, List.forM_nil, Action.result_pure_eq_ok_iff, List.flatMap_nil,
      Site.add_nil]
    constructor
    · rintro ⟨-, rfl⟩
      exact ⟨h0, rfl⟩
    · rintro ⟨-, rfl⟩
      exact ⟨rfl, rfl⟩
  | succ m ih =>
    rw [List.range_succ, List.forM_append, Action.result_seq_eq_ok_iff, List.flatMap_append,
      List.flatMap_singleton, ← Site.add_add]
    have hlast (t : Builder) :
        Action.result (forM [m] fun c => addChannel o s c (o.enabled c)) t =
          (addChannel o s m (o.enabled m)).result t := by
      simp
    constructor
    · rintro ⟨t, ht, hr⟩
      obtain ⟨h, rfl⟩ := ih.1 ht
      have hx' : (x.add ((List.range m).flatMap (channelPdos o s))).entries.length ≤
          Sync.entryLimit := by
        rw [Site.entries_add, List.length_append, length_entries_flatMap_channelPdos hl]
        exact h.entries
      rw [hlast, result_addChannel_eq_ok_iff hl hp hs hx', length_entries] at hr
      exact ⟨(accepts_succ_iff hl hs h).2 hr.1, hr.2⟩
    · rintro ⟨h', hb⟩
      have h := h'.of_succ
      have hx' : (x.add ((List.range m).flatMap (channelPdos o s))).entries.length ≤
          Sync.entryLimit := by
        rw [Site.entries_add, List.length_append, length_entries_flatMap_channelPdos hl]
        exact h.entries
      refine ⟨_, ih.2 ⟨h, rfl⟩, ?_⟩
      rw [hlast, result_addChannel_eq_ok_iff hl hp hs hx', length_entries]
      exact ⟨(accepts_succ_iff hl hs h).1 h', hb⟩

end Layout

end ServoBus.Axis
