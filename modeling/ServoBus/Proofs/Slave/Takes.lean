import ServoBus.Proofs.Device.Takes
import ServoBus.Proofs.Slave.Drives

/-!
# The pins that a slave sets

In the input half of a cycle a slave sets the pins of its status words, of its input objects and
of its input lines, each to the value of a field of the image. It sets no other pin, and whatever
the content of a field is, its pin can hold it.
-/

namespace ServoBus

namespace Axis.Channel.Wired

variable {site : Site} {n : Nat} {o : ChannelOptions} {regs : Registrations} {pins : PinTable}
  {c : Channel} {f : Feature}

/-- An input object that is not packed goes from its entry to its pin. -/
theorem exists_input (h : c.Wired site n o regs pins) {d : DriveObject}
    (hd : (f, d) ∈ c.enabled.objects .input) (hf : f ∉ o.packed) :
    ∃ m, (f, m) ∈ c.inputs ∧ m.Wired regs pins (objectEntry site c.base d)
      (pinShape site c.label d.pinName .output d.format) := by
  obtain ⟨-, hobject, htransfer⟩ := FeatureSet.mem_objects.1 hd
  rcases h.all f d (List.mem_append_left _ hd) with ⟨hp, -⟩ | ⟨-, -, m, hm⟩ | ⟨-, ht, -⟩
  · exact absurd hp hf
  · obtain ⟨-, e, he, hw⟩ := h.inputs f m hm
    have hed := (FeatureSet.mem_objects.1 he).2.1.symm.trans hobject
    rw [Option.some_inj.1 hed] at hw
    exact ⟨m, hm, hw⟩
  · rw [htransfer] at ht
    cases ht

end Axis.Channel.Wired

namespace Slave

/-- The fields that a channel reads, with their signs, each with the pin that shows it. -/
inductive Takes (s : Slave) (c : Axis.Channel) : Field → Bool → String → Prop where
  | status {F : Field} (hF : s.field? ⟨c.base + 0x41, 0⟩ = some F) :
    Takes s c F false "cia-statusword"
  | object {f : Feature} {d : DriveObject} {F : Field} (hd : (f, d) ∈ c.enabled.objects .input)
    (hf : f ∉ s.type.packed) (hF : s.field? ⟨d.index c.base, d.subindex⟩ = some F) :
    Takes s c F d.format.signed d.pinName
  | line {d : DriveObject} {F : Field} {line : String × Nat} (ht : s.type.family = .stepper)
    (hd : (.digitalInput, d) ∈ c.enabled.objects .input)
    (hl : line ∈ Stepper.namedInputs ++ Stepper.numberedInputs s.type.digitalInputs)
    (hF : s.field? ⟨d.index c.base, d.subindex⟩ = some F) :
    Takes s c (bitField (F.offset.shift line.2)) false line.1

/-- A reading sets a pin of a channel to the value of a field, which the pin can hold. -/
structure Sets (s : Slave) (c : Axis.Channel) (image : Bytes) (F : Field) (signed : Bool)
    (name : String) (a : Reading) : Prop where
  raw : a.raw = F.read signed image
  pin : ∃ kind, s.pins.Has a.pin ⟨s.pinName c name, .output, kind⟩ ∧
    (Pin.Value.ofRaw kind a.raw).raw = a.raw

/-- An active slave of which all that the input half of a cycle needs is in order. -/
structure Readable (μ : Type) [Master μ] (s : Slave) (rig : Rig) : Prop where
  active : s.rig? = some rig
  sound : s.Sound μ
  held : rig.Held s.site s.type s.regs s.pins
  sees : rig.Sees s.site s.type s.regs s.pins

variable {s : Slave} {c : Axis.Channel}

/-- The object of the input lines comes in. -/
theorem mem_inputs_of_mem_mappedObjects {enabled : FeatureSet} {d : DriveObject}
    (hd : (.digitalInput, d) ∈ Axis.mappedObjects enabled) :
    (.digitalInput, d) ∈ enabled.objects .input := by
  obtain ⟨hf, ho, -⟩ := Axis.mem_mappedObjects.1 hd
  refine FeatureSet.mem_objects.2 ⟨hf, ho, ?_⟩
  cases ho
  rfl

theorem sets_takeBit (image : Bytes) {bit : Nat × PinRef} {name : String}
    (h : s.pins.Has bit.2 ⟨s.pinName c name, .output, .bit⟩) (o : Offset) :
    s.Sets c image (bitField (o.shift bit.1)) false name (PackedBits.takeBit image o bit) where
  raw := rfl
  pin := by
    refine ⟨.bit, h, ?_⟩
    rw [PackedBits.takeBit, read_bitField]
    cases readBit (o.shift bit.1) image <;> rfl

namespace Readable

variable {μ : Type} [Master μ] {rig : Rig}

theorem mem_channels (h : s.Readable μ rig) : c ∈ s.channels ↔ c ∈ rig.channels := by
  rw [channels, h.active]
  rfl

/-- A mapped object is read from its field into its pin. -/
theorem exists_sets (h : s.Readable μ rig) (hc : c ∈ s.channels) (image : Bytes)
    {m : Axis.Mapped} {e : Registration} {name : String} {format : Format}
    (hm : m.Wired s.regs s.pins e (Axis.pinShape s.site c.label name .output format))
    (hf : m.format = format) :
    ∃ F a, s.field? e.address = some F ∧ Axis.Channel.takeMapped? s.regs image m = some a ∧
      s.Sets c image F format.signed name a := by
  obtain ⟨o, ho, hF⟩ := h.sound.exists_field hc hm.entry
  refine ⟨_, ⟨m.pin, (Field.mk o m.format.width).read m.format.signed image⟩, hF, ?_, ?_⟩
  · rw [Axis.Channel.takeMapped?, ho]
    rfl
  · have hwidth := hm.width
    rw [hf] at hwidth
    subst hf
    refine ⟨?_, _, hm.pin, ?_⟩
    · rw [← hwidth]
    · exact Pin.Value.raw_ofRaw_read ⟨o, m.format.width⟩ m.format.signed image

/-- The slave sets a pin for every field that it takes. -/
theorem exists_take (h : s.Readable μ rig) (hc : c ∈ s.channels) (image : Bytes) {F : Field}
    {signed : Bool} {name : String} (ht : s.Takes c F signed name) :
    ∃ a ∈ rig.takes s.regs image, s.Sets c image F signed name a := by
  obtain ⟨n, q, -, hn, hpacked, hwired⟩ := h.sound.exists_wired hc
  have hmem := h.mem_channels.1 hc
  have hformat := h.sees.formats c hmem
  have hmapped {m : Axis.Mapped} (hm : m ∈ c.status :: c.inputs.map (·.2)) {a : Reading}
      (ha : Axis.Channel.takeMapped? s.regs image m = some a) : a ∈ rig.takes s.regs image :=
    List.mem_append_left _ (List.mem_flatMap.2 ⟨c, hmem, List.mem_filterMap.2 ⟨m, hm, ha⟩⟩)
  cases ht with
  | status hF =>
    obtain ⟨G, a, hG, ha, hsets⟩ := h.exists_sets hc image hwired.status hformat.status
    cases hF.symm.trans hG
    exact ⟨a, hmapped List.mem_cons_self ha, hsets⟩
  | @object f d _ hd hf hF =>
    rw [← hpacked] at hf
    obtain ⟨m, hm, hw⟩ := hwired.exists_input hd hf
    have hobject := (FeatureSet.mem_objects.1 hd).2.1
    obtain ⟨G, a, hG, ha, hsets⟩ := h.exists_sets hc image hw (hformat.inputs f m hm d hobject)
    cases hF.symm.trans hG
    exact ⟨a, hmapped (List.mem_cons_of_mem _ (List.mem_map_of_mem hm)) ha, hsets⟩
  | @line d G line ht hd hl hF =>
    have hn : rig.channels[n]? = some c := by
      rw [channels, h.active] at hn
      exact hn
    obtain ⟨p, hp, he, hshown⟩ := h.sees.lines ht n c d hn (List.mem_append_left _ hd)
    obtain ⟨o, ho, hG⟩ := h.sound.exists_field hc he
    cases hF.symm.trans hG
    obtain ⟨bit, hbit, hbitline, hpin⟩ := hshown.exists_bit hl
    refine ⟨PackedBits.takeBit image o bit, ?_, hbitline ▸ sets_takeBit image hpin o⟩
    refine List.mem_append_right _ (List.mem_flatMap.2 ⟨p, hp, ?_⟩)
    rw [PackedBits.takes, ho]
    exact List.mem_map_of_mem hbit

/-- A pin that the slave sets shows a field that it takes. -/
theorem exists_takes_of_mem (h : s.Readable μ rig) (image : Bytes) {a : Reading}
    (ha : a ∈ rig.takes s.regs image) :
    ∃ c ∈ s.channels, ∃ F signed name, s.Takes c F signed name ∧
      s.Sets c image F signed name a := by
  rcases List.mem_append.1 ha with ha | ha
  · obtain ⟨c, hmem, ha⟩ := List.mem_flatMap.1 ha
    have hc := h.mem_channels.2 hmem
    obtain ⟨n, q, -, -, hpacked, hwired⟩ := h.sound.exists_wired hc
    have hformat := h.sees.formats c hmem
    obtain ⟨m, hm, htake⟩ := List.mem_filterMap.1 ha
    refine ⟨c, hc, ?_⟩
    rcases List.mem_cons.1 hm with rfl | hm
    · obtain ⟨F, a', hF, ha', hsets⟩ := h.exists_sets hc image hwired.status hformat.status
      cases htake.symm.trans ha'
      exact ⟨F, _, _, .status hF, hsets⟩
    · obtain ⟨⟨f, m'⟩, hfm, rfl⟩ := List.mem_map.1 hm
      obtain ⟨hf, d, hd, hw⟩ := hwired.inputs f m' hfm
      have hobject := (FeatureSet.mem_objects.1 hd).2.1
      obtain ⟨F, a', hF, ha', hsets⟩ :=
        h.exists_sets hc image hw (hformat.inputs f m' hfm d hobject)
      cases htake.symm.trans ha'
      rw [hpacked] at hf
      exact ⟨F, _, _, .object hd hf hF, hsets⟩
  · obtain ⟨p, hp, ha⟩ := List.mem_flatMap.1 ha
    obtain ⟨n, c, d, hn, hd, he, hshown⟩ := h.held.inputs p hp
    have hc := h.mem_channels.2 (List.mem_of_getElem? hn)
    obtain ⟨o, ho, hF⟩ := h.sound.exists_field hc he
    rw [PackedBits.takes, ho] at ha
    obtain ⟨bit, hbit, rfl⟩ := List.mem_map.1 ha
    obtain ⟨line, hl, hbitline, hpin⟩ := hshown.exists_line hbit
    have htake := Takes.line (h.sees.family p hp) (mem_inputs_of_mem_mappedObjects hd) hl hF
    exact ⟨c, hc, _, _, line.1, htake, hbitline ▸ sets_takeBit image hpin o⟩

end Readable

end Slave

end ServoBus
