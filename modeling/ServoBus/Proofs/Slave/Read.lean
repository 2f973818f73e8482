import ServoBus.Proofs.Slave.Takes

/-!
# The input half of a cycle for a slave

A slave that takes part in the input half of a cycle sets the pins of the fields that it takes.
All other pins keep their values, among them all that are set by the host, and nothing else of
the slave changes but the state that was asked for.
-/

namespace ServoBus.Slave

/-- The host sees the value of a field under the name of a pin of a channel. -/
def Reflects (s : Slave) (image : Bytes) (c : Axis.Channel) (F : Field) (signed : Bool)
    (name : String) : Prop :=
  ∃ v, s.pins.value? (s.pinName c name) = some v ∧ v.raw = F.read signed image

/-- What the input half of a cycle does to a slave that takes part in it. -/
structure ReadFrom (image : Bytes) (s s' : Slave) : Prop where
  status : ∀ c ∈ s.channels, ∃ o, s.field? ⟨c.base + 0x41, 0⟩ = some ⟨o, 16⟩ ∧
    s'.Reflects image c ⟨o, 16⟩ false "cia-statusword"
  inputs : ∀ c ∈ s.channels, ∀ f d, (f, d) ∈ c.enabled.objects .input → f ∉ s.type.packed →
    ∃ o, s.field? ⟨d.index c.base, d.subindex⟩ = some ⟨o, d.format.width⟩ ∧
      s'.Reflects image c ⟨o, d.format.width⟩ d.format.signed d.pinName
  /-- A line is a bit of its object, and zero beyond the end of the image. -/
  lines : s.type.family = .stepper → ∀ c ∈ s.channels, ∀ d,
    (.digitalInput, d) ∈ c.enabled.objects .input →
      ∃ o, s.field? ⟨d.index c.base, d.subindex⟩ = some ⟨o, 32⟩ ∧
        ∀ line ∈ Stepper.namedInputs ++ Stepper.numberedInputs s.type.digitalInputs,
          s'.pins.value? (s.pinName c line.1) =
            some (.bit (decide ((o.position + line.2) / 8 < image.length) &&
              image.value.testBit (o.position + line.2)))
  others : ∀ name,
    (∀ c ∈ s.channels, ∀ F signed x, s.Takes c F signed x → s.pinName c x ≠ name) →
      s'.pins.value? name = s.pins.value? name
  /-- Pins that the host sets are what they were. -/
  host : ∀ ref p, s.pins.pin? ref = some p → p.direction ≠ .output → s'.pins.pin? ref = some p
  shapes : s'.pins.shapes = s.pins.shapes
  rest : s' = { s with pins := s'.pins, state := s'.state }

namespace Readable

variable {μ : Type} [Master μ] {s : Slave} {rig : Rig} {c : Axis.Channel} {F : Field}
  {signed : Bool} {name : String}

theorem nodup_takes (h : s.Readable μ rig) (image : Bytes) :
    ((rig.takes s.regs image).map (·.pin)).Nodup :=
  h.sees.distinct.sublist (rig.pins_takes s.regs image)

/-- A pin of the slave shows the field that it is for, with a value of its own type. -/
theorem exists_value (h : s.Readable μ rig) (image : Bytes) (hc : c ∈ s.channels)
    (ht : s.Takes c F signed name) :
    ∃ v, (rig.read s.regs image s.pins).value? (s.pinName c name) = some v ∧
      v.raw = F.read signed image ∧
        ∀ ref p, s.pins.Has ref p → p.name = s.pinName c name → v.kind = p.kind := by
  obtain ⟨a, ha, hsets⟩ := h.exists_take hc image ht
  obtain ⟨kind, hhas, hraw⟩ := hsets.pin
  have hshapes := rig.shapes_read s.regs image s.pins
  have hnames := (h.sound rig h.active).1.names
  have hnames' : (rig.read s.regs image s.pins).names.Nodup := by
    rw [PinTable.names, hshapes]
    exact hnames
  have hhas' : (rig.read s.regs image s.pins).Has a.pin ⟨s.pinName c name, .output, kind⟩ := by
    rw [PinTable.Has, hshapes]
    exact hhas
  obtain ⟨v, hv, hkind, hvraw⟩ := PinTable.value?_of_has hnames' hhas'
  refine ⟨v, hv, ?_, fun ref p hp hname => ?_⟩
  · obtain ⟨p, hp, hshape⟩ := PinTable.exists_pin?_of_has hhas
    have hpkind : p.kind = kind := congrArg Pin.Shape.kind hshape
    have hpin := Reading.pin?_applyAll (h.nodup_takes image) ha s.pins
    rw [← Rig.read_eq, hp, Option.map_some] at hpin
    rw [← hvraw, PinTable.raw, hpin, Option.map_some, Option.getD_some, Pin.putRaw, hpkind, hraw,
      hsets.raw]
  · cases PinTable.has_inj hnames hp hhas hname
    cases Option.some_inj.1 (hp.symm.trans hhas)
    exact hkind

/-- A line shows its bit. -/
theorem value?_line (h : s.Readable μ rig) (image : Bytes) (hc : c ∈ s.channels)
    (ht : s.type.family = .stepper) {d : DriveObject}
    (hd : (.digitalInput, d) ∈ c.enabled.objects .input) {line : String × Nat}
    (hl : line ∈ Stepper.namedInputs ++ Stepper.numberedInputs s.type.digitalInputs) {o : Offset}
    (hF : s.field? ⟨d.index c.base, d.subindex⟩ = some ⟨o, 32⟩) :
    (rig.read s.regs image s.pins).value? (s.pinName c line.1) =
      some (.bit (readBit (o.shift line.2) image)) := by
  obtain ⟨v, hv, hraw, hkind⟩ := h.exists_value image hc (.line ht hd hl hF)
  obtain ⟨n, hn⟩ := List.mem_iff_getElem?.1 (h.mem_channels.1 hc)
  obtain ⟨p, -, -, hshown⟩ := h.sees.lines ht n c d hn (List.mem_append_left _ hd)
  obtain ⟨bit, -, -, hpin⟩ := hshown.exists_bit hl
  obtain ⟨on, rfl⟩ := Pin.Value.exists_of_kind_eq_bit (hkind bit.2 _ hpin rfl)
  rw [read_bitField] at hraw
  rw [hv]
  cases on <;> cases hbit : readBit (o.shift line.2) image
  · rfl
  · rw [hbit] at hraw
    cases hraw
  · rw [hbit] at hraw
    cases hraw
  · rfl

/-- A pin that shows no field of the slave is what it was. -/
theorem pin?_read (h : s.Readable μ rig) (image : Bytes) {ref : PinRef} {p : Pin.Shape}
    (hp : s.pins.Has ref p)
    (hn : ∀ c ∈ s.channels, ∀ F signed x, s.Takes c F signed x →
      p ≠ ⟨s.pinName c x, .output, p.kind⟩) :
    (rig.read s.regs image s.pins).pin? ref = s.pins.pin? ref := by
  rw [Rig.read_eq]
  refine Reading.pin?_applyAll_of_not_mem ?_ s.pins
  intro hmem
  obtain ⟨a, ha, rfl⟩ := List.mem_map.1 hmem
  obtain ⟨c, hc, F, signed, x, ht, hsets⟩ := h.exists_takes_of_mem image ha
  obtain ⟨kind, hhas, -⟩ := hsets.pin
  cases Option.some_inj.1 (hp.symm.trans hhas)
  exact hn c hc F signed x ht rfl

/-- The pins after the input half of a cycle, with whatever state the slave has then. -/
theorem readFrom (h : s.Readable μ rig) (image : Bytes) (state : SlaveState) :
    s.ReadFrom image { s with pins := rig.read s.regs image s.pins, state } where
  status c hc := by
    obtain ⟨o, hF⟩ := h.sound.field_status hc
    obtain ⟨v, hv, hraw, -⟩ := h.exists_value image hc (.status hF)
    exact ⟨o, hF, v, hv, hraw⟩
  inputs c hc f d hd hf := by
    obtain ⟨o, hF⟩ := h.sound.field_object hc (List.mem_append_left _ hd)
    obtain ⟨v, hv, hraw, -⟩ := h.exists_value image hc (.object hd hf hF)
    exact ⟨o, hF, v, hv, hraw⟩
  lines ht c hc d hd := by
    obtain ⟨o, hF⟩ := h.sound.field_object hc (List.mem_append_left _ hd)
    have hwidth : d.format.width = 32 := by
      cases (FeatureSet.mem_objects.1 hd).2.1
      rfl
    rw [hwidth] at hF
    refine ⟨o, hF, fun line hl => ?_⟩
    rw [← readBit_shift]
    exact h.value?_line image hc ht hd hl hF
  others name hn := by
    refine PinTable.value?_congr (rig.shapes_read s.regs image s.pins) fun ref p hp hname => ?_
    refine h.pin?_read image hp fun c hc F signed x ht heq => ?_
    rw [heq] at hname
    exact hn c hc F signed x ht hname
  host ref p hp hd := by
    rw [← hp]
    refine h.pin?_read image (PinTable.has_of_pin? hp) fun c _ F signed x _ heq => ?_
    exact hd (congrArg Pin.Shape.direction heq)
  shapes := rig.shapes_read s.regs image s.pins
  rest := rfl

end Readable

end ServoBus.Slave
