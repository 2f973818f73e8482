import ServoBus.Proofs.Device.Wired

/-!
# What a cycle leaves of a rig

The input half of a cycle puts values into pins, and the output half moves the writers of
a rig. Apart from its writers a rig is the same for good, so what depends only on that and
on the shapes of the pins holds in every cycle.
-/

namespace ServoBus

namespace Axis.Channel

/-- The channel without its writers. -/
def idle (c : Channel) : Channel := { c with services := [] }

theorem eq_of_idle_eq {c c' : Channel} (h : c'.idle = c.idle) :
    c'.base = c.base ∧ c'.label = c.label ∧ c'.enabled = c.enabled := by
  cases c
  cases c'
  simp only [idle, Channel.mk.injEq] at h
  exact ⟨h.2.1, h.1, h.2.2.1⟩

theorem Wired.of_idle_eq {site : Site} {n : Nat} {o : ChannelOptions} {regs : Registrations}
    {pins : PinTable} {c c' : Channel} (h : c.Wired site n o regs pins) (hc : c'.idle = c.idle) :
    c'.Wired site n o regs pins := by
  cases c
  cases c'
  simp only [idle, Channel.mk.injEq, and_true] at hc
  obtain ⟨rfl, rfl, rfl, rfl, rfl, rfl, rfl, rfl, rfl⟩ := hc
  exact ⟨h.label, h.base, h.enabled, h.control, h.status, h.inputs, h.outputs, h.packed, h.all⟩

theorem shapes_read (c : Channel) (regs : Registrations) (image : Bytes) (pins : PinTable) :
    (c.read regs image pins).shapes = pins.shapes := by
  unfold read
  induction c.status :: c.inputs.map (·.2) generalizing pins with
  | nil => rfl
  | cons m ms ih =>
    rw [List.foldl_cons, ih, readMapped]
    split
    · exact pins.shapes_putRaw _ _
    · rfl

theorem idle_write {μ : Type} [Master μ] (c : Channel) (regs : Registrations) (pins : PinTable)
    (m : μ) : (c.write regs pins m).value.1.idle = c.idle := rfl

end Axis.Channel

theorem PackedBits.shapes_read (p : PackedBits) (regs : Registrations) (image : Bytes)
    (pins : PinTable) : (p.read regs image pins).shapes = pins.shapes := by
  unfold read
  split
  · next o _ =>
    induction p.bits generalizing pins with
    | nil => rfl
    | cons bit bits ih =>
      rw [List.foldl_cons, ih]
      exact pins.shapes_put _ _
  · rfl

namespace Rig

/-- The rig without its writers. -/
def idle (r : Rig) : Rig := { r with channels := r.channels.map (·.idle) }

theorem shapes_read (r : Rig) (regs : Registrations) (image : Bytes) (pins : PinTable) :
    (r.read regs image pins).shapes = pins.shapes := by
  have hchannels (cs : List Axis.Channel) (pins : PinTable) :
      (cs.foldl (fun pins c => c.read regs image pins) pins).shapes = pins.shapes := by
    induction cs generalizing pins with
    | nil => rfl
    | cons c cs ih => rw [List.foldl_cons, ih, Axis.Channel.shapes_read]
  have hinputs (ps : List PackedBits) (pins : PinTable) :
      (ps.foldl (PackedBits.read regs image) pins).shapes = pins.shapes := by
    induction ps generalizing pins with
    | nil => rfl
    | cons p ps ih => rw [List.foldl_cons, ih, PackedBits.shapes_read]
  rw [read, hinputs, hchannels]

section Master

variable {μ : Type} [Master μ]

theorem idle_writeChannels (regs : Registrations) (pins : PinTable) (cs : List Axis.Channel)
    (m : μ) :
    (writeChannels regs pins cs m).value.1.map (·.idle) = cs.map (·.idle) := by
  induction cs generalizing m with
  | nil => rfl
  | cons c cs ih =>
    rw [writeChannels]
    simp only [Logged.value_bind, Logged.value_pure, List.map_cons, ih]
    rw [Axis.Channel.idle_write]

theorem idle_write (r : Rig) (regs : Registrations) (pins : PinTable) (m : μ) :
    (r.write regs pins m).value.1.idle = r.idle := by
  rw [write]
  simp only [Logged.value_bind, Logged.value_pure, idle]
  rw [idle_writeChannels]

end Master

/-- Channels of rigs that differ in their writers stand at the same places. -/
theorem exists_channel_of_idle_eq {r r' : Rig} (h : r'.idle = r.idle) {n : Nat}
    {c' : Axis.Channel} (hc' : r'.channels[n]? = some c') :
    ∃ c, r.channels[n]? = some c ∧ c.idle = c'.idle := by
  have hmap : r'.channels.map (·.idle) = r.channels.map (·.idle) := congrArg Rig.channels h
  have hn := congrArg (·[n]?) hmap
  simp only [List.getElem?_map, hc', Option.map_some] at hn
  exact Option.map_eq_some_iff.1 hn.symm

/-- A rig is wired for the registered entries and the shapes of the pins, and whatever its
writers do. -/
theorem Wired.of_eq {site : Site} {t : DeviceType} {regs regs' : Registrations}
    {pins pins' : PinTable} {r r' : Rig} (h : r.Wired site t regs pins)
    (hr : r'.idle = r.idle) (hregs : regs'.wanted = regs.wanted)
    (hpins : pins'.shapes = pins.shapes) : r'.Wired site t regs' pins' := by
  have hprefix : regs.wanted <+: regs'.wanted := ⟨[], by rw [hregs, List.append_nil]⟩
  have hgrow : pins.Grows pins' := .of_shapes_eq hpins
  have houtputs : r'.outputs = r.outputs := by
    have h := congrArg Rig.outputs hr
    exact h
  have hdrives {c c' : Axis.Channel} {d : DriveObject} {p : PackedBits} (hc : c'.idle = c.idle)
      (hd : DrivesLines site t regs pins c d p) : DrivesLines site t regs' pins' c' d p := by
    obtain ⟨hbase, hlabel, -⟩ := Axis.Channel.eq_of_idle_eq hc
    rw [DrivesLines, hbase, hlabel]
    exact ⟨hd.1.mono hprefix, hd.2.mono hgrow⟩
  constructor
  case channels =>
    intro n c' hc'
    obtain ⟨c, hc, heq⟩ := exists_channel_of_idle_eq hr hc'
    obtain ⟨o, ho, hw⟩ := h.channels n c hc
    exact ⟨o, ho, (hw.mono hprefix hgrow).of_idle_eq heq.symm⟩
  case outputs =>
    intro p hp
    rw [houtputs] at hp
    obtain ⟨ht, n, c, d, hc, hd, hdrive⟩ := h.outputs p hp
    obtain ⟨c', hc', heq⟩ := exists_channel_of_idle_eq hr.symm hc
    have henabled := (Axis.Channel.eq_of_idle_eq heq).2.2
    exact ⟨ht, n, c', d, hc', by rwa [henabled], hdrives heq hdrive⟩
  case lines =>
    intro ht n c' d hc' hd
    obtain ⟨c, hc, heq⟩ := exists_channel_of_idle_eq hr hc'
    rw [(Axis.Channel.eq_of_idle_eq heq.symm).2.2] at hd
    obtain ⟨p, hp, hdrive⟩ := h.lines ht n c d hc hd
    rw [houtputs]
    exact ⟨p, hp, hdrives heq.symm hdrive⟩
  case count =>
    have hlen : (r'.channels.map (·.idle)).length = (r.channels.map (·.idle)).length :=
      congrArg (·.channels.length) hr
    rw [List.length_map, List.length_map] at hlen
    rw [hlen]
    exact h.count
  case names => exact hgrow.2 h.names
  case addresses =>
    rw [hregs]
    exact h.addresses
  case widths =>
    rw [hregs]
    exact h.widths

end Rig

end ServoBus
