import Mathlib.Data.List.Pairwise
import ServoBus.Proofs.Device.Sends
import ServoBus.Proofs.Registration.Field
import ServoBus.Proofs.Slave

/-!
# The fields that a slave drives

A slave drives a field of the image with the value of a pin: the control word of a channel,
an output object with a pin of its own, or the bit of an output line. Each lies in the field
of an object that belongs to one channel only, so two of them are the same or share no bit.
What a slave sends in a cycle are the values of these pins and nothing else.
-/

namespace ServoBus

namespace Slave

/-- The channels of an active slave. -/
def channels (s : Slave) : List Axis.Channel := (s.rig?.map (·.channels)).getD []

/-- The name under which the host knows a pin of a channel. -/
def pinName (s : Slave) (c : Axis.Channel) (name : String) : String :=
  Pin.fullName s.site.master s.site.slave (some c.label) name

/-- The field of an object of the slave. -/
def field? (s : Slave) (a : ObjectAddress) : Option Field := s.regs.field? a

/-- The fields that a channel sends, each with the pin that it gets its value from. -/
inductive Drives (s : Slave) (c : Axis.Channel) : Field → String → Prop where
  | control {F : Field} (hF : s.field? ⟨c.base + 0x40, 0⟩ = some F) :
    Drives s c F "cia-controlword"
  | object {f : Feature} {d : DriveObject} {F : Field} (hd : (f, d) ∈ c.enabled.objects .output)
    (hf : f ∉ s.type.packed) (hF : s.field? ⟨d.index c.base, d.subindex⟩ = some F) :
    Drives s c F d.pinName
  | line {d : DriveObject} {F : Field} {n : Nat} (hs : s.type.family = .stepper)
    (hd : (.digitalOutput, d) ∈ c.enabled.objects .output) (hn : n < s.type.digitalOutputs)
    (hF : s.field? ⟨d.index c.base, d.subindex⟩ = some F) :
    Drives s c (bitField (F.offset.shift (16 + n))) s!"dout-{n + 1}"

/-- A driven field in the field of the item that it belongs to: all of it, or the bit of a
line. -/
inductive Part (s : Slave) (G : Field) : Axis.Item → Field → String → Prop where
  | control : Part s G .control G "cia-controlword"
  | object {f : Feature} {d : DriveObject} (hd : f.object? = some d) (ht : d.transfer = .output)
    (hf : f ∉ s.type.packed) : Part s G (.object f) G d.pinName
  | line {n : Nat} (hn : n < s.type.digitalOutputs) (hp : .digitalOutput ∈ s.type.packed) :
    Part s G (.object .digitalOutput) (bitField (G.offset.shift (16 + n))) s!"dout-{n + 1}"

variable {s : Slave} {c c' : Axis.Channel} {F F' G : Field} {name name' : String}
  {x : Axis.Item}

/-- Parts of one field are the same or share no bit. -/
theorem Part.eq_or_disjoint (h : s.Part G x F name) (h' : s.Part G x F' name') :
    (F = F' ∧ name = name') ∨ F.Disjoint F' := by
  cases h with
  | control =>
    cases h'
    exact .inl ⟨rfl, rfl⟩
  | object hd _ hf =>
    cases h' with
    | object hd' _ _ =>
      cases hd.symm.trans hd'
      exact .inl ⟨rfl, rfl⟩
    | line _ hp => exact absurd hp hf
  | @line n hn hp =>
    cases h' with
    | object _ _ hf => exact absurd hp hf
    | @line n' _ _ =>
      by_cases heq : n = n'
      · subst heq
        exact .inl ⟨rfl, rfl⟩
      · right
        simp only [Field.Disjoint, bitField, Offset.position_shift]
        omega

theorem mem_channels : c ∈ s.channels ↔ ∃ rig, s.rig? = some rig ∧ c ∈ rig.channels := by
  unfold channels
  cases s.rig? with
  | none => simp
  | some rig => simp

section Sound

variable {μ : Type} [Master μ]

/-- A channel of a sound slave is wired, with a number of its own. -/
theorem Sound.exists_wired (hs : s.Sound μ) (hc : c ∈ s.channels) :
    ∃ n o, n < Param.maxChannels ∧ s.channels[n]? = some c ∧ o.packed = s.type.packed ∧
      c.Wired s.site n o s.regs s.pins := by
  obtain ⟨rig, hrig, hmem⟩ := mem_channels.1 hc
  obtain ⟨hw, -⟩ := hs rig hrig
  obtain ⟨n, hn⟩ := List.mem_iff_getElem?.1 hmem
  obtain ⟨o, ho, hwired⟩ := hw.channels n c hn
  have hlt := (List.getElem?_eq_some_iff.1 hn).1
  refine ⟨n, o, Nat.lt_of_lt_of_le hlt hw.count, ?_, ho, hwired⟩
  rw [channels, hrig]
  exact hn

theorem Sound.exists_field (hs : s.Sound μ) (hc : c ∈ s.channels) {ref : RegRef}
    {e : Registration} (he : s.regs.Lists ref e) :
    ∃ o, s.regs.offset? ref = some o ∧ s.field? e.address = some ⟨o, e.width⟩ := by
  obtain ⟨rig, hrig, -⟩ := mem_channels.1 hc
  obtain ⟨hw, hp⟩ := hs rig hrig
  exact Registrations.field?_of_lists hw.addresses hp he

theorem Sound.field_control (hs : s.Sound μ) (hc : c ∈ s.channels) :
    ∃ o, s.field? ⟨c.base + 0x40, 0⟩ = some ⟨o, 16⟩ := by
  obtain ⟨n, o, -, -, -, hwired⟩ := hs.exists_wired hc
  obtain ⟨o, -, hF⟩ := hs.exists_field hc hwired.control.entry
  exact ⟨o, hF⟩

theorem Sound.field_status (hs : s.Sound μ) (hc : c ∈ s.channels) :
    ∃ o, s.field? ⟨c.base + 0x41, 0⟩ = some ⟨o, 16⟩ := by
  obtain ⟨n, o, -, -, -, hwired⟩ := hs.exists_wired hc
  obtain ⟨o, -, hF⟩ := hs.exists_field hc hwired.status.entry
  exact ⟨o, hF⟩

/-- Every enabled object of the image has a field of its width. -/
theorem Sound.field_object (hs : s.Sound μ) (hc : c ∈ s.channels) {f : Feature}
    {d : DriveObject} (hd : (f, d) ∈ Axis.mappedObjects c.enabled) :
    ∃ o, s.field? ⟨d.index c.base, d.subindex⟩ = some ⟨o, d.format.width⟩ := by
  obtain ⟨n, q, -, -, -, hwired⟩ := hs.exists_wired hc
  obtain ⟨ref, he⟩ := hwired.exists_lists hd
  obtain ⟨o, -, hF⟩ := hs.exists_field hc he
  exact ⟨o, hF⟩

/-- The object of the output lines has 32 bits. -/
theorem Sound.field_outputs (hs : s.Sound μ) (hc : c ∈ s.channels) {d : DriveObject}
    (hd : (.digitalOutput, d) ∈ c.enabled.objects .output) :
    ∃ o, s.field? ⟨d.index c.base, d.subindex⟩ = some ⟨o, 32⟩ := by
  obtain ⟨o, hF⟩ := hs.field_object hc (List.mem_append_right _ hd)
  rw [(Feature.object?_digitalOutput (FeatureSet.mem_objects.1 hd).2.1).2] at hF
  exact ⟨o, hF⟩

/-- A mapped object is sent to its field from its pin. -/
theorem Sound.exists_sendMapped (hs : s.Sound μ) (hc : c ∈ s.channels) {m : Axis.Mapped}
    {e : Registration} {p : Pin.Shape} (hm : m.Wired s.regs s.pins e p) :
    ∃ F v, s.field? e.address = some F ∧ s.pins.value? p.name = some v ∧
      Axis.Channel.sendMapped? s.regs s.pins m = some ⟨F, v.raw⟩ := by
  obtain ⟨rig, hrig, -⟩ := mem_channels.1 hc
  obtain ⟨o, ho, hF⟩ := hs.exists_field hc hm.entry
  obtain ⟨v, hv, -, hraw⟩ := PinTable.value?_of_has (hs rig hrig).1.names hm.pin
  refine ⟨_, v, hF, hv, ?_⟩
  rw [Axis.Channel.sendMapped?, ho, Option.map_some, hm.width, hraw]

/-- The bit of a line is sent from the pin of the line. -/
theorem Sound.exists_sendBit (hs : s.Sound μ) (hc : c ∈ s.channels) {bit : Nat × PinRef}
    {p : Pin.Shape} (hp : s.pins.Has bit.2 p) (hk : p.kind = .bit) (o : Offset) :
    ∃ v, s.pins.value? p.name = some v ∧
      PackedBits.sendBit o s.pins bit = ⟨bitField (o.shift bit.1), v.raw⟩ := by
  obtain ⟨rig, hrig, -⟩ := mem_channels.1 hc
  obtain ⟨v, hv, hkind, hraw⟩ := PinTable.value?_of_has (hs rig hrig).1.names hp
  refine ⟨v, hv, ?_⟩
  obtain ⟨on, rfl⟩ := Pin.Value.exists_of_kind_eq_bit (hkind.trans hk)
  rw [PackedBits.sendBit, hraw]
  cases on with
  | false => rfl
  | true => rfl

/-- The object of the output lines goes out. -/
theorem mem_outputs_of_mem_mappedObjects {enabled : FeatureSet} {d : DriveObject}
    (hd : (.digitalOutput, d) ∈ Axis.mappedObjects enabled) :
    (.digitalOutput, d) ∈ enabled.objects .output := by
  obtain ⟨hf, ho, -⟩ := Axis.mem_mappedObjects.1 hd
  exact FeatureSet.mem_objects.2 ⟨hf, ho, (Feature.object?_digitalOutput ho).1⟩

theorem rig?_of_cyclic?_eq_some {rig : Rig} (h : s.cyclic? = some rig) : s.rig? = some rig := by
  unfold cyclic? at h
  split at h
  · exact h
  · cases h

theorem exists_cyclic?_of_isOperational (h : s.isOperational = true) :
    ∃ rig, s.cyclic? = some rig := by
  rw [← cyclic?_isSome] at h
  exact Option.isSome_iff_exists.1 h

theorem isOperational_of_mem_sends {a : Assignment} (ha : a ∈ s.sends) :
    s.isOperational = true := by
  rw [← cyclic?_isSome]
  unfold sends at ha
  split at ha
  · next rig hcyclic => rw [hcyclic, Option.isSome_some]
  · cases ha

/-- What a slave sends is the value of a pin in a field that it drives. -/
theorem Sound.exists_drives (hs : s.Sound μ) {a : Assignment} (ha : a ∈ s.sends) :
    ∃ c ∈ s.channels, ∃ name v, s.Drives c a.field name ∧
      s.pins.value? (s.pinName c name) = some v ∧ a.value = v.raw := by
  unfold sends at ha
  split at ha
  · next rig hcyclic =>
    have hrig := rig?_of_cyclic?_eq_some hcyclic
    rcases List.mem_append.1 ha with ha | ha
    · obtain ⟨c, hc, ha⟩ := List.mem_flatMap.1 ha
      have hc : c ∈ s.channels := mem_channels.2 ⟨rig, hrig, hc⟩
      obtain ⟨n, o, -, -, hpacked, hwired⟩ := hs.exists_wired hc
      obtain ⟨m, hm, hsend⟩ := List.mem_filterMap.1 ha
      refine ⟨c, hc, ?_⟩
      rcases List.mem_cons.1 hm with rfl | hm
      · obtain ⟨F, v, hF, hv, heq⟩ := hs.exists_sendMapped hc hwired.control
        cases hsend.symm.trans heq
        exact ⟨_, v, .control hF, hv, rfl⟩
      · obtain ⟨⟨f, m'⟩, hfm, rfl⟩ := List.mem_map.1 hm
        obtain ⟨hf, d, hd, hmapped⟩ := hwired.outputs f m' hfm
        obtain ⟨F, v, hF, hv, heq⟩ := hs.exists_sendMapped hc hmapped
        cases hsend.symm.trans heq
        rw [hpacked] at hf
        exact ⟨_, v, .object hd hf hF, hv, rfl⟩
    · obtain ⟨p, hp, ha⟩ := List.mem_flatMap.1 ha
      obtain ⟨ht, n, c, d, hn, hd, he, hshown⟩ := (hs rig hrig).1.outputs p hp
      have hc : c ∈ s.channels := mem_channels.2 ⟨rig, hrig, List.mem_of_getElem? hn⟩
      obtain ⟨o, ho, hF⟩ := hs.exists_field hc he
      rw [PackedBits.sends, ho] at ha
      obtain ⟨bit, hbit, rfl⟩ := List.mem_map.1 ha
      obtain ⟨line, hline, hbitline, hpin⟩ := hshown.exists_line hbit
      obtain ⟨k, hk, rfl⟩ := Stepper.mem_numberedOutputs.1 hline
      obtain ⟨v, hv, hsend⟩ := hs.exists_sendBit hc hpin rfl o
      rw [hsend, hbitline]
      have hd := mem_outputs_of_mem_mappedObjects hd
      exact ⟨c, hc, _, v, .line ht hd hk hF, hv, rfl⟩
  · cases ha

/-- A slave in the cycle sends every field that it drives. -/
theorem Sound.exists_send (hs : s.Sound μ) (ho : s.isOperational = true) (hc : c ∈ s.channels)
    (h : s.Drives c F name) :
    ∃ v, s.pins.value? (s.pinName c name) = some v ∧ ⟨F, v.raw⟩ ∈ s.sends := by
  obtain ⟨rig, hcyclic⟩ := exists_cyclic?_of_isOperational ho
  have hrig := rig?_of_cyclic?_eq_some hcyclic
  obtain ⟨n, q, -, hn, hpacked, hwired⟩ := hs.exists_wired hc
  have hsends : s.sends = rig.sends s.regs s.pins := by rw [sends, hcyclic]
  have hn : rig.channels[n]? = some c := by
    rw [channels, hrig] at hn
    exact hn
  have hmapped {m : Axis.Mapped} (hm : m ∈ c.control :: c.outputs.map (·.2)) {a : Assignment}
      (ha : Axis.Channel.sendMapped? s.regs s.pins m = some a) : a ∈ s.sends := by
    rw [hsends]
    refine List.mem_append_left _ (List.mem_flatMap.2 ⟨c, List.mem_of_getElem? hn, ?_⟩)
    exact List.mem_filterMap.2 ⟨m, hm, ha⟩
  cases h with
  | control hF =>
    obtain ⟨G, v, hG, hv, heq⟩ := hs.exists_sendMapped hc hwired.control
    cases hF.symm.trans hG
    exact ⟨v, hv, hmapped List.mem_cons_self heq⟩
  | @object f d _ hd hf hF =>
    rw [← hpacked] at hf
    obtain ⟨m, hm, hw⟩ := hwired.exists_output hd hf
    obtain ⟨G, v, hG, hv, heq⟩ := hs.exists_sendMapped hc hw
    cases hF.symm.trans hG
    exact ⟨v, hv, hmapped (List.mem_cons_of_mem _ (List.mem_map_of_mem hm)) heq⟩
  | @line d G k ht hd hk hF =>
    obtain ⟨p, hp, he, hshown⟩ :=
      (hs rig hrig).1.lines ht n c d hn (List.mem_append_right _ hd)
    obtain ⟨o, ho, hG⟩ := hs.exists_field hc he
    cases hF.symm.trans hG
    have hline := Stepper.mem_numberedOutputs.2 ⟨k, hk, rfl⟩
    obtain ⟨bit, hbit, hbitline, hpin⟩ := hshown.exists_bit hline
    obtain ⟨v, hv, hsend⟩ := hs.exists_sendBit hc hpin rfl o
    refine ⟨v, hv, ?_⟩
    rw [hsends]
    refine List.mem_append_right _ (List.mem_flatMap.2 ⟨p, hp, ?_⟩)
    rw [PackedBits.sends, ho]
    refine List.mem_map.2 ⟨bit, hbit, ?_⟩
    rw [hsend, hbitline]

/-- The field of an object of an active slave can be read and written if it is in the image. -/
theorem Sound.field_bounds (hμ : Master.Orderly μ) (hs : s.Sound μ) (hc : c ∈ s.channels)
    {a : ObjectAddress} (hF : s.field? a = some F) :
    0 < F.width ∧ F.width ≤ 32 ∧ F.offset.bit < 8 := by
  obtain ⟨rig, hrig, -⟩ := mem_channels.1 hc
  obtain ⟨hw, hp⟩ := hs rig hrig
  obtain ⟨e, he, -, heF⟩ := Registrations.exists_of_field?_eq_some hF
  have hbit := hp.bit_lt hμ he heF
  have hwidth := hw.widths e.unplaced (List.mem_map_of_mem he)
  obtain ⟨o, -, rfl⟩ := Option.map_eq_some_iff.1 heF
  rw [Registration.width_unplaced] at hwidth
  simp only [List.mem_cons, List.not_mem_nil, or_false] at hwidth
  refine ⟨?_, ?_, hbit⟩
  · show 0 < e.width
    omega
  · show e.width ≤ 32
    omega

theorem Sound.bounds (hμ : Master.Orderly μ) (hs : s.Sound μ) (hc : c ∈ s.channels)
    (h : s.Drives c F name) : 0 < F.width ∧ F.width ≤ 32 ∧ F.offset.bit < 8 := by
  cases h with
  | control hF => exact hs.field_bounds hμ hc hF
  | object _ _ hF => exact hs.field_bounds hμ hc hF
  | line _ _ _ _ =>
    refine ⟨Nat.one_pos, ?_, Offset.bit_shift_lt _ _⟩
    show 1 ≤ 32
    decide

/-- A driven field lies in the field of its object. No line is behind the object, as there are
at most 16 of them. -/
theorem Sound.exists_part (hs : s.Sound μ) (hc : c ∈ s.channels)
    (hlines : s.type.digitalOutputs ≤ 16) (h : s.Drives c F name) :
    ∃ x a G, x.address? c.base = some a ∧ s.field? a = some G ∧ s.Part G x F name ∧
      ∀ i, F.Covers i → G.Covers i := by
  cases h with
  | control hF => exact ⟨.control, _, F, rfl, hF, .control, fun _ hi => hi⟩
  | object hd hf hF =>
    obtain ⟨-, hobject, ht⟩ := FeatureSet.mem_objects.1 hd
    exact ⟨_, _, F, Axis.Item.address?_object _ hobject, hF, .object hobject ht hf, fun _ hi => hi⟩
  | line ht hd hn hF =>
    obtain ⟨o, hG⟩ := hs.field_outputs hc hd
    obtain ⟨-, hobject, -⟩ := FeatureSet.mem_objects.1 hd
    have hp := DeviceType.mem_packed_iff.2 ⟨ht, .inl rfl⟩
    refine ⟨_, _, _, Axis.Item.address?_object _ hobject, hF, .line hn hp, ?_⟩
    cases hF.symm.trans hG
    intro i hi
    simp only [Field.Covers, bitField, Offset.position_shift] at hi ⊢
    omega

/-- The bits of a driven field belong to a registered entry. -/
theorem Sound.exists_entry (hs : s.Sound μ) (hc : c ∈ s.channels)
    (hlines : s.type.digitalOutputs ≤ 16) (h : s.Drives c F name) :
    ∃ e ∈ s.regs.entries, ∀ i, F.Covers i → e.Covers i := by
  obtain ⟨x, a, G, -, hG, -, hcover⟩ := hs.exists_part hc hlines h
  obtain ⟨e, he, -, heG⟩ := Registrations.exists_of_field?_eq_some hG
  refine ⟨e, he, ?_⟩
  intro i hi
  exact Registration.covers_iff.2 ⟨G, heG, hcover i hi⟩

/-- An address tells the channel and the item. -/
theorem Sound.eq_of_address (hs : s.Sound μ) (hc : c ∈ s.channels) (hc' : c' ∈ s.channels)
    {x y : Axis.Item} {a : ObjectAddress} (hx : x.address? c.base = some a)
    (hy : y.address? c'.base = some a) : c = c' ∧ x = y := by
  obtain ⟨n, o, hlt, hn, -, hw⟩ := hs.exists_wired hc
  obtain ⟨n', o', hlt', hn', -, hw'⟩ := hs.exists_wired hc'
  rw [hw.base] at hx
  rw [hw'.base] at hy
  obtain ⟨rfl, hxy⟩ := Axis.Item.address?_inj hlt hlt' hx hy
  exact ⟨Option.some_inj.1 (hn.symm.trans hn'), hxy⟩

/-- A driven field is a part of the field of an item, or shares no bit with it. -/
theorem Sound.part_or_apart (hs : s.Sound μ) (hlines : s.type.digitalOutputs ≤ 16)
    (hapart : s.regs.entries.Pairwise Registration.Apart) (hc : c ∈ s.channels)
    {a : ObjectAddress} (hx : x.address? c.base = some a) (hG : s.field? a = some G)
    (hc' : c' ∈ s.channels) (h : s.Drives c' F name) :
    (c' = c ∧ s.Part G x F name) ∨ ∀ i, F.Covers i → ¬ G.Covers i := by
  obtain ⟨x', a', G', hx', hG', hpart, hcover⟩ := hs.exists_part hc' hlines h
  by_cases ha : a' = a
  · subst ha
    obtain ⟨rfl, rfl⟩ := hs.eq_of_address hc' hc hx' hx
    cases hG.symm.trans hG'
    exact .inl ⟨rfl, hpart⟩
  · obtain ⟨e, he, hea, heG⟩ := Registrations.exists_of_field?_eq_some hG
    obtain ⟨e', he', hea', heG'⟩ := Registrations.exists_of_field?_eq_some hG'
    have hne : e' ≠ e := by
      intro heq
      exact ha (hea'.symm.trans ((congrArg Registration.address heq).trans hea))
    right
    intro i hi hGi
    exact hapart.forall he' he hne i (Registration.covers_iff.2 ⟨G', heG', hcover i hi⟩)
      (Registration.covers_iff.2 ⟨G, heG, hGi⟩)

/-- Two fields that a slave drives are the same, with the same pin, or share no bit. -/
theorem Sound.eq_or_disjoint (hμ : Master.Orderly μ) (hs : s.Sound μ)
    (hlines : s.type.digitalOutputs ≤ 16) (hapart : s.regs.entries.Pairwise Registration.Apart)
    (hc : c ∈ s.channels) (hc' : c' ∈ s.channels) (h : s.Drives c F name)
    (h' : s.Drives c' F' name') : (c = c' ∧ F = F' ∧ name = name') ∨ F.Disjoint F' := by
  obtain ⟨x, a, G, hx, hG, hpart, hcover⟩ := hs.exists_part hc hlines h
  rcases hs.part_or_apart hlines hapart hc hx hG hc' h' with ⟨heq, hpart'⟩ | hd
  · rcases hpart.eq_or_disjoint hpart' with hF | hd
    · exact .inl ⟨heq.symm, hF⟩
    · exact .inr hd
  · right
    apply Field.disjoint_of_covers (hs.bounds hμ hc h).1 (hs.bounds hμ hc' h').1
    intro i hi hi'
    exact hd i hi' (hcover i hi)

/-- The pin of an output line is a bit. -/
theorem Sound.exists_line (hs : s.Sound μ) (hc : c ∈ s.channels) (ht : s.type.family = .stepper)
    {d : DriveObject} (hd : (.digitalOutput, d) ∈ c.enabled.objects .output) {n : Nat}
    (hn : n < s.type.digitalOutputs) :
    ∃ on, s.pins.value? (s.pinName c s!"dout-{n + 1}") = some (.bit on) := by
  obtain ⟨rig, hrig, hmem⟩ := mem_channels.1 hc
  obtain ⟨hw, -⟩ := hs rig hrig
  obtain ⟨k, hk⟩ := List.mem_iff_getElem?.1 hmem
  obtain ⟨p, -, -, hshown⟩ := hw.lines ht k c d hk (List.mem_append_right _ hd)
  obtain ⟨bit, -, -, hpin⟩ := hshown.exists_bit (Stepper.mem_numberedOutputs.2 ⟨n, hn, rfl⟩)
  obtain ⟨v, hv, hkind, -⟩ := PinTable.value?_of_has hw.names hpin
  obtain ⟨on, rfl⟩ := Pin.Value.exists_of_kind_eq_bit hkind
  exact ⟨on, hv⟩

end Sound

end Slave

end ServoBus
