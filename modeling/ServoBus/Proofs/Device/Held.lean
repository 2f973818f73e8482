import ServoBus.Proofs.Device.Idle

/-!
# Pins that a rig holds besides those of mapped objects

The services of a channel take their values from pins, and a stepper drive shows the bits of its
digital inputs. With `Rig.Wired` this covers all references that a rig holds. In a cycle the
writers of services change, but not the pins that they take their values from.
-/

namespace ServoBus

namespace Axis.Channel

theorem map_pin_serve {μ : Type} [Master μ] (pins : PinTable) (services : List Served) (m : μ) :
    (serve pins services m).value.1.map (·.pin) = services.map (·.pin) := by
  induction services generalizing m with
  | nil => rfl
  | cons s services ih =>
    simp only [serve, Logged.value_bind, Logged.value_pure, List.map_cons, ih]

theorem Serves.of_eq {site : Site} {pins pins' : PinTable} {c c' : Channel}
    (h : c.Serves site pins) (hc : c'.idle = c.idle)
    (hs : c'.services.map (·.pin) = c.services.map (·.pin)) (hp : pins.Grows pins') :
    c'.Serves site pins' := by
  obtain ⟨-, hlabel, henabled⟩ := eq_of_idle_eq hc
  rw [Serves, hlabel, henabled, hs]
  exact h.mono hp

end Axis.Channel

namespace Rig

/-- The bits of the digital inputs of a channel, with a pin for each line. -/
def ShowsLines (site : Site) (t : DeviceType) (regs : Registrations) (pins : PinTable)
    (c : Axis.Channel) (d : DriveObject) (p : PackedBits) : Prop :=
  regs.Lists p.entry (Axis.objectEntry site c.base d) ∧
    Stepper.Shown site c.label .output pins
      (Stepper.namedInputs ++ Stepper.numberedInputs t.digitalInputs) p.bits

/-- The rig of a device whose services and input lines refer to their own pins. -/
structure Held (site : Site) (t : DeviceType) (regs : Registrations) (pins : PinTable)
    (rig : Rig) : Prop where
  labels : ∀ (n : Nat) c, rig.channels[n]? = some c →
    c.label = Axis.channelLabel rig.channels.length n
  services : ∀ (n : Nat) c, rig.channels[n]? = some c → c.Serves site pins
  inputs : ∀ p ∈ rig.inputs, ∃ (n : Nat) (c : Axis.Channel) (d : DriveObject),
    rig.channels[n]? = some c ∧ (.digitalInput, d) ∈ Axis.mappedObjects c.enabled ∧
      ShowsLines site t regs pins c d p

/-- The pins that services take their values from. -/
def servicePins (r : Rig) : List (List PinRef) := r.channels.map fun c => c.services.map (·.pin)

theorem Held.of_eq {site : Site} {t : DeviceType} {regs regs' : Registrations}
    {pins pins' : PinTable} {r r' : Rig} (h : r.Held site t regs pins) (hr : r'.idle = r.idle)
    (hs : r'.servicePins = r.servicePins) (hregs : regs'.wanted = regs.wanted)
    (hpins : pins'.shapes = pins.shapes) : r'.Held site t regs' pins' := by
  have hprefix : regs.wanted <+: regs'.wanted := ⟨[], by rw [hregs, List.append_nil]⟩
  have hgrow : pins.Grows pins' := .of_shapes_eq hpins
  have hinputs : r'.inputs = r.inputs := by
    have h := congrArg Rig.inputs hr
    exact h
  constructor
  case labels =>
    intro n c' hc'
    obtain ⟨c, hc, heq⟩ := exists_channel_of_idle_eq hr hc'
    have hlen : r'.channels.length = r.channels.length := by
      simpa [servicePins] using congrArg List.length hs
    rw [hlen, (Axis.Channel.eq_of_idle_eq heq.symm).2.1]
    exact h.labels n c hc
  case services =>
    intro n c' hc'
    obtain ⟨c, hc, heq⟩ := exists_channel_of_idle_eq hr hc'
    have hn := congrArg (·[n]?) hs
    simp only [servicePins, List.getElem?_map, hc, hc', Option.map_some, Option.some.injEq] at hn
    exact (h.services n c hc).of_eq heq.symm hn hgrow
  case inputs =>
    intro p hp
    rw [hinputs] at hp
    obtain ⟨n, c, d, hc, hd, hshow⟩ := h.inputs p hp
    obtain ⟨c', hc', heq⟩ := exists_channel_of_idle_eq hr.symm hc
    obtain ⟨hbase, hlabel, henabled⟩ := Axis.Channel.eq_of_idle_eq heq
    refine ⟨n, c', d, hc', by rwa [henabled], ?_⟩
    rw [ShowsLines, hbase, hlabel]
    exact ⟨hshow.1.mono hprefix, hshow.2.mono hgrow⟩

variable {μ : Type} [Master μ]

theorem servicePins_write (r : Rig) (regs : Registrations) (pins : PinTable) (m : μ) :
    (r.write regs pins m).value.1.servicePins = r.servicePins := by
  have hchannels (cs : List Axis.Channel) (m : μ) :
      (writeChannels regs pins cs m).value.1.map (fun c => c.services.map (·.pin)) =
        cs.map fun c => c.services.map (·.pin) := by
    induction cs generalizing m with
    | nil => rfl
    | cons c cs ih =>
      simp only [writeChannels, Axis.Channel.write, Logged.value_bind, Logged.value_pure,
        List.map_cons, ih, Axis.Channel.map_pin_serve]
  exact hchannels r.channels m

end Rig

section SetUp

variable {μ : Type} [Master μ] {site : Site} {settings : List Param.Setting} {t : DeviceType}
  {rig : Rig} {w w' : Workspace μ}

theorem Generic.labels_initialOptions : Generic.initialOptions.Uniform (·.label) "srv" :=
  (Axis.uniform_default _).mapChannels fun _ hc => hc

theorem Stepper.labels_initialOptions (axes digitalInputs digitalOutputs : Nat) :
    (Stepper.initialOptions axes digitalInputs digitalOutputs).Uniform (·.label) "srv" :=
  (Axis.uniform_default _).mapChannels fun _ hc => hc

/-- The labels of channels go with their numbers. -/
theorem Axis.label_of_configure {o : Axis.Options} (ho : o.Uniform (·.label) "srv")
    {cs : List Axis.Channel}
    (h : (Axis.configure site o.numberLabels).result w = (.ok cs, w')) {n : Nat}
    {c : Axis.Channel} (hc : cs[n]? = some c) : c.label = Axis.channelLabel cs.length n := by
  obtain ⟨hlen, hwired⟩ := Axis.wired_of_configure h
  obtain ⟨q, hq, hw⟩ := hwired n c hc
  rw [hw.label, hlen]
  exact ho.label_of_active hq

theorem Generic.held_of_result_setUp
    (h : (Generic.setUp site settings).result w = (.ok rig, w')) :
    rig.Held site t w'.regs w'.pins := by
  obtain ⟨o, w₁, cs, ho, hcs, rfl⟩ := Generic.exists_of_result_setUp h
  have hlabels := Action.of_result_foldlM
    (fun _ _ _ _ _ => Generic.uniform_apply fun _ _ _ => rfl) Generic.labels_initialOptions ho
  constructor
  case labels => exact fun n c hc => Axis.label_of_configure hlabels hcs hc
  case services =>
    intro n c hc
    exact (Axis.of_result_configure hcs).2.2.2.2 c (List.mem_of_getElem? hc)
  case inputs =>
    intro p hp
    cases hp

/-- The object of the input lines of a channel is packed, too. -/
theorem Stepper.Equipped.exists_shows {n : Nat} {q : Axis.ChannelOptions} {regs : Registrations}
    {pins : PinTable} {c : Axis.Channel} {entry : RegRef} {p : PackedBits}
    (h : Stepper.Equipped site t n q regs pins c) (ht : t.family = .stepper)
    (he : c.entry? .digitalInput = some entry) (hin : Stepper.InputLines site pins (c, q) entry p) :
    ∃ d, (.digitalInput, d) ∈ Axis.mappedObjects c.enabled ∧
      Rig.ShowsLines site t regs pins c d p := by
  have hpacked : q.packed = t.packed := congrArg Prod.fst h.1
  have hn : q.digitalInputs = t.digitalInputs := congrArg (fun x => x.2.1) h.1
  have hmem : Feature.digitalInput ∈ q.packed := by
    rw [hpacked, DeviceType.mem_packed_iff]
    exact ⟨ht, .inr rfl⟩
  obtain ⟨d, hd, hl⟩ := h.2.entry?_eq_some hmem he
  obtain ⟨rfl, hshown⟩ := hin
  refine ⟨d, hd, hl, ?_⟩
  rw [h.2.label, ← hn]
  exact hshown

theorem Stepper.held_of_result_setUp (ht : t.family = .stepper)
    (h : (Stepper.setUp t site settings).result w = (.ok rig, w')) :
    rig.Held site t w'.regs w'.pins := by
  have hpacked : t.packed = (∅ : FeatureSet).insertMany [.digitalOutput, .digitalInput] := by
    rw [DeviceType.packed, ht]
  obtain ⟨o, w₁, cs, w₂, ho, hcs, hlines⟩ := Stepper.exists_of_result_setUp h
  have hfixed := (Action.of_result_foldlM (fun _ _ _ _ _ => Stepper.fixed_apply)
    (Stepper.fixed_initialOptions _ _ _) ho).numberLabels
  rw [← hpacked] at hfixed
  have hlabels := Action.of_result_foldlM
    (fun _ _ _ _ _ => Stepper.uniform_apply fun _ _ _ => rfl)
    (Stepper.labels_initialOptions _ _ _) ho
  have hgrow : Setup.Decorates w₂ w' := (Stepper.moves_addChannelLines _ _).of_result hlines
  obtain ⟨hchannels, -, -, -, hsound⟩ := Stepper.of_result_addChannelLines hlines
  have hchannels : rig.channels = cs := hchannels
  constructor
  case labels =>
    intro n c hc
    rw [hchannels] at hc ⊢
    exact Axis.label_of_configure hlabels hcs hc
  case services =>
    intro n c hc
    rw [hchannels] at hc
    exact ((Axis.of_result_configure hcs).2.2.2.2 c (List.mem_of_getElem? hc)).mono hgrow.2
  case inputs =>
    intro p hp
    rcases hsound p hp with hp | ⟨⟨c, q⟩, hx, entry, he, hin⟩
    · cases hp
    · obtain ⟨n, hn⟩ := List.mem_iff_getElem?.1 hx
      obtain ⟨hc, hq⟩ := List.getElem?_zip_eq_some.1 hn
      obtain ⟨q', hq', hc'⟩ := Stepper.exists_equipped hfixed hcs hlines hc
      cases hq.symm.trans hq'
      obtain ⟨d, hd, hshow⟩ := hc'.exists_shows ht he hin
      rw [← hchannels] at hc
      exact ⟨n, c, d, hc, hd, hshow⟩

theorem DeviceType.held_of_result_setUp (h : (t.setUp site settings).result w = (.ok rig, w')) :
    rig.Held site t w'.regs w'.pins := by
  rcases DeviceType.cases_of_result_setUp h with ⟨-, h⟩ | ⟨hfamily, h⟩
  · exact Generic.held_of_result_setUp h
  · exact Stepper.held_of_result_setUp hfamily h

end SetUp

end ServoBus
