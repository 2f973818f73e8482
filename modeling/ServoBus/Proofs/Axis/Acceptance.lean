import ServoBus.Proofs.Axis.Layout

/-!
# Options that are accepted

`Acceptable` says of options alone when the sync managers of a drive can be built from
them. Nothing in it depends on the order in which channels and directions are added: no
channel asks for more than it may, the blocks of a direction stay in their range and do
not meet, and all PDOs and entries of both directions find place in the description of one
slave. As every channel has a PDO in each direction, four channels are the most.
-/

namespace ServoBus.Axis

def Side.both : List Side := [.output, .input]

theorem Side.forall_mem_both {p : Side → Prop} :
    (∀ s ∈ both, p s) ↔ p .output ∧ p .input := by
  simp [both]

namespace Layout

structure Acceptable (o : Options) : Prop where
  /-- The device maps all entries of a channel. -/
  limit : ∀ s ∈ Side.both, ∀ c < o.channels, demand o s c ≤ s.limit o
  pdos : ∀ s ∈ Side.both, ∀ c < o.channels, pdoCount o s c ≤ allowedPdos o
  range : ∀ s ∈ Side.both, ∀ c < o.channels, ∀ i ∈ places o s c, i ≤ 0x1ff
  apart : ∀ s ∈ Side.both, ∀ c < o.channels, ∀ c' < c, (places o s c').Disjoint (places o s c)
  room : ((List.range o.channels).map fun c =>
    pdoCount o .output c + pdoCount o .input c).sum ≤ Sync.pdoLimit
  entries : ((List.range o.channels).map fun c =>
    demand o .output c + demand o .input c).sum ≤ Sync.entryLimit

variable {o : Options} {device : String}

theorem sum_map_range_add (f g : Nat → Nat) (m : Nat) :
    ((List.range m).map fun c => f c + g c).sum =
      ((List.range m).map f).sum + ((List.range m).map g).sum := by
  induction m with
  | zero => rfl
  | succ m ih =>
    rw [sum_map_range_succ, sum_map_range_succ, sum_map_range_succ, ih]
    omega

/-- The PDOs of the two directions have different ranges. -/
theorem index_ne_of_mem_output (hl : 0 < o.pdoEntryLimit)
    (hr : ∀ c < o.channels, ∀ i ∈ places o .output c, i ≤ 0x1ff) {p : Sync.Pdo}
    (hp : p ∈ sidePdos o .output) (j : Nat) : p.index.toNat ≠ Side.input.firstPdo + j := by
  rw [sidePdos, List.mem_flatMap] at hp
  obtain ⟨c, hc, hp⟩ := hp
  have hrc := hr c (List.mem_range.1 hc)
  obtain ⟨i, hi, hpi⟩ := index_of_mem_channelPdos hl (by decide) hrc hp
  have hle := hrc i hi
  rw [hpi]
  simp only [Side.output, Side.input]
  omega

/-- Adding the directions one after the other asks for the same as the options at once. -/
theorem accepts_iff_acceptable (hl : 0 < o.pdoEntryLimit) :
    Accepts o .output (outputSite device) o.channels ∧
        Accepts o .input (inputSite device o) o.channels ↔ Acceptable o := by
  have hpdos : (inputSite device o).pdos.length =
      ((List.range o.channels).map (pdoCount o .output)).sum := by
    rw [pdos_inputSite, sidePdos, length_flatMap_channelPdos hl]
  have hents : (inputSite device o).entries.length =
      ((List.range o.channels).map (demand o .output)).sum := by
    rw [entries_inputSite, sidePdos, length_entries_flatMap_channelPdos hl]
  have hsum := sum_map_range_add (pdoCount o .output) (pdoCount o .input) o.channels
  have hsum' := sum_map_range_add (demand o .output) (demand o .input) o.channels
  constructor
  · rintro ⟨hout, hin⟩
    have hroom := hin.room
    have hentries := hin.entries
    rw [hpdos, ← hsum] at hroom
    rw [hents, ← hsum'] at hentries
    constructor
    · exact Side.forall_mem_both.2 ⟨hout.limit, hin.limit⟩
    · exact Side.forall_mem_both.2 ⟨hout.pdos, hin.pdos⟩
    · exact Side.forall_mem_both.2 ⟨hout.range, hin.range⟩
    · exact Side.forall_mem_both.2 ⟨hout.apart, hin.apart⟩
    · exact hroom
    · exact hentries
  · intro h
    obtain ⟨hlimit, hlimit'⟩ := Side.forall_mem_both.1 h.limit
    obtain ⟨hcount, hcount'⟩ := Side.forall_mem_both.1 h.pdos
    obtain ⟨hrange, hrange'⟩ := Side.forall_mem_both.1 h.range
    obtain ⟨hapart, hapart'⟩ := Side.forall_mem_both.1 h.apart
    have hroom := h.room
    have hentries := h.entries
    rw [hsum] at hroom
    rw [hsum'] at hentries
    refine ⟨⟨hlimit, hcount, hrange, hapart, ?_, ?_, ?_⟩,
      ⟨hlimit', hcount', hrange', hapart', ?_, ?_, ?_⟩⟩
    · intro c _ i _ p hp
      rw [pdos_outputSite] at hp
      exact absurd hp List.not_mem_nil
    · rw [pdos_outputSite, List.length_nil, Nat.zero_add]
      omega
    · rw [entries_outputSite, List.length_nil, Nat.zero_add]
      omega
    · intro c _ i _ p hp
      rw [pdos_inputSite] at hp
      exact index_ne_of_mem_output hl hrange hp i
    · rwa [hpdos]
    · rwa [hents]

/-- Each channel has a PDO in each direction. -/
theorem Acceptable.two_mul_channels_le (h : Acceptable o) (hl : 0 < o.pdoEntryLimit) :
    2 * o.channels ≤ Sync.pdoLimit := by
  have hle : ∀ m, 2 * m ≤ ((List.range m).map fun c =>
      pdoCount o .output c + pdoCount o .input c).sum := by
    intro m
    induction m with
    | zero => exact Nat.le_refl 0
    | succ m ih =>
      have hout := pdoCount_pos hl .output m
      have hin := pdoCount_pos hl .input m
      rw [sum_map_range_succ]
      omega
  exact Nat.le_trans (hle o.channels) h.room

/-- The sync managers of a drive can be built exactly if its options are acceptable, and
never for more than four channels. -/
theorem build_ok_iff_acceptable (hv : (o.validate device).outcome = .ok ()) :
    (((build o).result ⟨device, [], false⟩).1 = .ok () ↔ Acceptable o) ∧
      (((build o).result ⟨device, [], false⟩).1 = .ok () → o.channels ≤ 4) := by
  obtain ⟨-, -, hl, -⟩ := Options.validate_eq_ok_iff.1 hv
  have hl := Nat.pos_of_ne_zero hl
  have hiff : ((build o).result ⟨device, [], false⟩).1 = .ok () ↔ Acceptable o := by
    rw [← @accepts_iff_acceptable o device hl]
    constructor
    · intro h
      exact ((result_build_eq_ok_iff hv).1 (Prod.ext h rfl)).1
    · intro h
      rw [(result_build_eq_ok_iff hv).2 ⟨h, rfl⟩]
  refine ⟨hiff, ?_⟩
  intro h
  have hch := (hiff.1 h).two_mul_channels_le hl
  have hlim : Sync.pdoLimit = 8 := rfl
  omega

/-- Two axes with a cyclic position, each entry in a PDO of its own. -/
def twoAxes : Options :=
  { channels := 2, increment := 3, autoflow := true, pdoEntryLimit := 1,
    channel := Vector.replicate _ { requested := FeatureSet.ofList [.csp] } }

/-- An axis has two PDOs in each direction, so the second axis cannot start one place
behind the first. -/
theorem acceptable_twoAxes :
    (twoAxes.validate "drive").outcome = .ok () ∧ Acceptable twoAxes ∧
      ¬ Acceptable { twoAxes with increment := 1 } := by
  have hv : (twoAxes.validate "drive").outcome = .ok () := rfl
  have hb := Action.result_eq_ok_of_isOk
    (show ((build twoAxes).result ⟨"drive", [], false⟩).1.isOk = true by decide +kernel)
  refine ⟨hv, (build_ok_iff_acceptable hv).1.1 (congrArg Prod.fst hb), ?_⟩
  intro h
  have hv' : (Options.validate "drive" { twoAxes with increment := 1 }).outcome = .ok () := rfl
  have hno : ((build { twoAxes with increment := 1 }).result ⟨"drive", [], false⟩).1.isOk =
      false := by decide +kernel
  rw [(build_ok_iff_acceptable hv').1.2 h] at hno
  cases hno

end Layout

end ServoBus.Axis
