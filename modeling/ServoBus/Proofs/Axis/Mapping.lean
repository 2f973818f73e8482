import Mathlib.Data.List.Perm.Basic
import ServoBus.Proofs.Axis.Acceptance
import ServoBus.Proofs.Axis.Room
import ServoBus.Proofs.Master

/-!
# Entries that are mapped and entries that are registered

A drive is described twice: the sync managers map its entries in the order of the wire, the
outputs of all channels before the inputs, and the slave registers them channel by channel,
the inputs before the outputs. Both lists are the same up to their order. As no more than 32
entries are ever mapped, a slave with room for that many has room for all that are registered.
-/

namespace ServoBus

/-- A registered entry as it is mapped. -/
def Registration.mapping (r : Registration) : Sync.Entry := ⟨r.address, r.width⟩

namespace Axis

section Drive

variable {μ : Type} [Master μ] {site : Site}

open Channel (NotForRoom)

/-- A channel maps its outputs before its inputs and registers its inputs before its outputs. -/
theorem perm_entries (n : Nat) (enabled : FeatureSet) :
    (Side.output.entries n enabled ++ Side.input.entries n enabled).Perm
      ((channelEntries site (base n) enabled).map Registration.mapping) := by
  rw [channelEntries, List.map_cons, List.map_cons, List.map_map, mappedObjects, List.map_append]
  exact List.Perm.cons _ (List.perm_middle.trans (List.Perm.cons _ List.perm_append_comm))

/-- What the options map is what the slave registers, in another order. -/
theorem perm_sideEntries (site : Site) (o : Options) :
    (Layout.sideEntries o .output ++ Layout.sideEntries o .input).Perm
      ((driveEntries site o.active.zipIdx).map Registration.mapping) := by
  rw [driveEntries, List.map_flatMap]
  refine (List.flatMap_append_perm ..).trans (List.Perm.flatMap_left _ fun p _ => ?_)
  exact perm_entries p.2 p.1.requested.resolve

theorem slave_of_mem_driveEntries {l : List (ChannelOptions × Nat)} {r : Registration}
    (hr : r ∈ driveEntries site l) : r.slave = site.position := by
  obtain ⟨p, -, hr⟩ := List.mem_flatMap.1 hr
  rcases mem_channelEntries.1 hr with rfl | rfl | ⟨f, d, -, rfl⟩
  · rfl
  · rfl
  · rfl

theorem ofLayout_of_validate {device : String} {o : Options} {e : Fault}
    (h : (o.validate device).outcome = .error e) : e.OfLayout := by
  unfold Options.validate at h
  split at h
  · cases h
    trivial
  · split at h
    · cases h
      trivial
    · split at h <;> cases h
      trivial

/-- From nothing, the sync managers map what the drive registers, and not too much of it. -/
theorem perm_of_result_build (site : Site) {o : Options} {b b' : Sync.Builder} (hb : b.latest = [])
    (h : (Layout.build o).result b = (.ok (), b')) :
    b'.entries.Perm ((driveEntries site o.active.zipIdx).map Registration.mapping) ∧
      (driveEntries site o.active.zipIdx).length ≤ Sync.entryLimit := by
  have hempty : b.entries = [] := by
    rw [Sync.Builder.entries, Sync.Builder.managers, hb]
    rfl
  have hperm := perm_sideEntries site o
  have hentries := Layout.maps_build.entries h
  rw [hempty, List.nil_append] at hentries
  rw [← hentries] at hperm
  refine ⟨hperm, ?_⟩
  rw [← List.length_map (f := Registration.mapping), ← hperm.length_eq]
  refine Layout.maps_build.room h ?_
  rw [hempty]
  exact Nat.zero_le _

/-- What is registered and pinned after the sync managers were built leaves them alone. -/
theorem result_build_of_configure {o : Options} {cs : List Channel} {w w' : Workspace μ}
    (h : (configure site o).result w = (.ok cs, w')) :
    (Layout.build o).result w.syncs = (.ok (), w'.syncs) := by
  obtain ⟨b, hb, hcs⟩ := exists_of_result_configure h
  have hkeep : w'.syncs = b := by
    refine Action.Moves.of_result (R := Action.Same (·.syncs)) (Action.Moves.mapM ?_ _) hcs
    intro p w₃
    exact (Channel.syncs_register rfl).1
  rw [hkeep]
  exact hb

/-- A drive whose options are accepted finds room, if the slave has room for as many entries
as can be mapped. -/
theorem notForRoom_of_result_configure {o : Options} {w w' : Workspace μ} {e : Fault}
    (hsyncs : w.syncs.latest = []) (hregs : w.regs.entries = [])
    (hcap : Sync.entryLimit ≤ w.regs.capacity)
    (h : (configure site o).result w = (.error e, w')) : NotForRoom μ site e := by
  rw [configure] at h
  rcases Action.result_bind_eq_error_iff.1 h with hv | ⟨_, w₁, hv, hrest⟩
  · intro hfull
    exact absurd hfull (ofLayout_of_validate (congrArg Prod.fst hv)).ofShape.not_isRegistrationsFull
  obtain ⟨-, rfl⟩ := Action.result_ofChecked_eq_ok_iff.1 hv
  rcases Action.result_bind_eq_error_iff.1 hrest with hs | ⟨_, w₂, hs, hcs⟩
  · intro hfull
    exact absurd hfull (Layout.maps_build.fault.zoom _ _ _ _ _ hs).ofShape.not_isRegistrationsFull
  obtain ⟨b, hb, rfl⟩ := Action.result_zoom_eq_ok_iff.1 hs
  have hlimit := (perm_of_result_build site hsyncs hb).2
  refine notForRoom_of_result_registerAll hlimit ?_ hcs
  show w₁.regs.entries.length + _ ≤ w₁.regs.capacity
  rw [hregs, List.length_nil, Nat.zero_add]
  exact Nat.le_trans hlimit hcap

/-- Configuring a drive without any entry maps entries with different addresses, and it
registers exactly these for its slave. With room for as many entries as can be mapped, it does
not fail for want of room, unless the master itself gives this as a reason. -/
theorem mapped_of_configure {o : Options} {w : Workspace μ} (hsyncs : w.syncs.latest = [])
    (hregs : w.regs.entries = []) :
    (∀ cs w', (configure site o).result w = (.ok cs, w') →
      (w'.syncs.entries.map (·.address)).Nodup ∧
        w'.syncs.entries.Perm (w'.regs.entries.map Registration.mapping) ∧
        ∀ r ∈ w'.regs.entries, r.slave = site.position) ∧
      (Sync.entryLimit ≤ w.regs.capacity → ∀ e w', (configure site o).result w = (.error e, w') →
        e.IsRegistrationsFull → ∃ (a : ObjectAddress) (length : Nat) (m m' : μ),
          Master.createRequest site.position a length m = (.error e, m')) := by
  constructor
  · intro cs w' h
    obtain ⟨hcount, hregs', -, -⟩ := of_result_configure h
    have hentries : w'.regs.entries = driveEntries site o.active.zipIdx := by
      rw [hregs', Registrations.extend, hregs, List.nil_append]
    have hperm := (perm_of_result_build site hsyncs (result_build_of_configure h)).1
    rw [hentries]
    refine ⟨?_, hperm, fun r hr => slave_of_mem_driveEntries hr⟩
    rw [(hperm.map _).nodup_iff, List.map_map]
    exact nodup_addresses_driveEntries hcount
  · intro hcap e w' h
    exact notForRoom_of_result_configure hsyncs hregs hcap h

/-- A slave of which nothing is known yet. -/
def freshDrive : Workspace Bench := ⟨⟨[]⟩, ⟨"m0.a", [], false⟩, ⟨"m0.a", 32, []⟩, {}⟩

/-- Two axes map and register the same entries, in different orders. -/
theorem mapped_twoAxes : ∃ cs w',
    (configure ⟨"m0", "a", 0, ⟨1, 2⟩⟩ Layout.twoAxes.numberLabels).result freshDrive =
        (.ok cs, w') ∧
      w'.syncs.entries.Perm (w'.regs.entries.map Registration.mapping) ∧
      w'.syncs.entries ≠ w'.regs.entries.map Registration.mapping := by
  have hok : ((configure ⟨"m0", "a", 0, ⟨1, 2⟩⟩ Layout.twoAxes.numberLabels).result
      freshDrive).1.isOk = true := by decide +kernel
  have hne : ∀ w', ((configure ⟨"m0", "a", 0, ⟨1, 2⟩⟩ Layout.twoAxes.numberLabels).result
      freshDrive).2 = w' → w'.syncs.entries ≠ w'.regs.entries.map Registration.mapping := by
    rintro w' rfl
    decide +kernel
  rcases h : (configure ⟨"m0", "a", 0, ⟨1, 2⟩⟩ Layout.twoAxes.numberLabels).result
    freshDrive with ⟨e | cs, w'⟩
  · rw [h] at hok
    cases hok
  · exact ⟨cs, w', rfl, ((mapped_of_configure rfl rfl).1 cs w' h).2.1,
      hne w' (congrArg Prod.snd h)⟩

end Drive

end Axis

end ServoBus
