import ServoBus.Proofs.Bus.Run
import ServoBus.Proofs.Slave.Drives

/-!
# The output half of a cycle

After a configuration that succeeded, the output half of a cycle puts the value of a pin into
every field that an operational slave drives, and changes nothing else. The entries of active
slaves are apart, so no slave gets in the way of another one, and within a slave an address
tells what it is the address of.
-/

namespace ServoBus.Bus

variable {μ : Type} [Master μ] {b : Bus μ}

/-- All that the slaves of the bus send in a cycle. -/
def sends (b : Bus μ) : List Assignment := b.slaves.flatMap (·.sends)

theorem image_writeAll (hμ : Master.Orderly μ) (slaves : List Slave) (m : μ) :
    Master.image (writeAll slaves m).value.2 =
      Assignment.applyAll (slaves.flatMap (·.sends)) (Master.image m) := by
  induction slaves generalizing m with
  | nil => rfl
  | cons s rest ih =>
    simp only [writeAll, Logged.value_bind, Logged.value_pure]
    rw [ih, s.image_write hμ, List.flatMap_cons, Assignment.applyAll_append]

theorem image_write (hμ : Master.Orderly μ) (b : Bus μ) :
    Master.image b.write.value.master = Assignment.applyAll b.sends (Master.image b.master) :=
  image_writeAll hμ b.slaves b.master

theorem pins_writeAll (slaves : List Slave) (m : μ) :
    (writeAll slaves m).value.1.map (·.pins) = slaves.map (·.pins) := by
  induction slaves generalizing m with
  | nil => rfl
  | cons s rest ih =>
    simp only [writeAll, Logged.value_bind, Logged.value_pure, List.map_cons, ih, Slave.pins_write]

/-- A bus whose active slaves are sound, with entries that are apart. -/
structure Ready (b : Bus μ) : Prop where
  sound : ∀ s ∈ b.slaves, s.Sound μ
  lines : ∀ s ∈ b.slaves, s.type.digitalOutputs ≤ 16
  apart : b.activeEntries.Pairwise Registration.Apart

namespace Ready

variable {s s' : Slave} {c : Axis.Channel}

theorem isActive_of_mem_channels (hc : c ∈ s.channels) : s.isActive = true := by
  obtain ⟨rig, hrig, -⟩ := Slave.mem_channels.1 hc
  rw [Slave.isActive, hrig]
  rfl

theorem apart_slave (h : b.Ready) (hs : s ∈ b.slaves) (ha : s.isActive = true) :
    s.regs.entries.Pairwise Registration.Apart :=
  (List.pairwise_flatMap.1 h.apart).1 s (List.mem_filter.2 ⟨hs, ha⟩)

theorem apart_slaves (h : b.Ready) (hs : s ∈ b.slaves) (ha : s.isActive = true)
    (hs' : s' ∈ b.slaves) (ha' : s'.isActive = true) (hne : s ≠ s') {e e' : Registration}
    (he : e ∈ s.regs.entries) (he' : e' ∈ s'.regs.entries) : e.Apart e' := by
  let R (s s' : Slave) : Prop :=
    ∀ e ∈ s.regs.entries, ∀ e' ∈ s'.regs.entries, Registration.Apart e e'
  have hsymm : Std.Symm R := ⟨fun _ _ hR e he e' he' => (hR e' he' e he).symm⟩
  have hR : (b.slaves.filter (·.isActive)).Pairwise R := (List.pairwise_flatMap.1 h.apart).2
  exact hR.forall (List.mem_filter.2 ⟨hs, ha⟩) (List.mem_filter.2 ⟨hs', ha'⟩) hne e he e' he'

/-- Two assignments of a cycle are the same or share no bit. -/
theorem eq_or_disjoint (hμ : Master.Orderly μ) (h : b.Ready) {a a' : Assignment}
    (ha : a ∈ b.sends) (ha' : a' ∈ b.sends) : a' = a ∨ a'.field.Disjoint a.field := by
  obtain ⟨s, hs, ha⟩ := List.mem_flatMap.1 ha
  obtain ⟨s', hs', ha'⟩ := List.mem_flatMap.1 ha'
  obtain ⟨c, hc, name, v, hd, hv, hav⟩ := (h.sound s hs).exists_drives ha
  obtain ⟨c', hc', name', v', hd', hv', hav'⟩ := (h.sound s' hs').exists_drives ha'
  by_cases hss : s' = s
  · subst hss
    have hapart := h.apart_slave hs (isActive_of_mem_channels hc)
    rcases (h.sound s' hs).eq_or_disjoint hμ (h.lines s' hs) hapart hc' hc hd' hd with
      ⟨rfl, hF, rfl⟩ | hdisjoint
    · left
      cases hv.symm.trans hv'
      cases a
      cases a'
      simp only at hF hav hav'
      rw [hF, hav, hav']
    · exact .inr hdisjoint
  · right
    obtain ⟨e, he, hcover⟩ := (h.sound s hs).exists_entry hc (h.lines s hs) hd
    obtain ⟨e', he', hcover'⟩ := (h.sound s' hs').exists_entry hc' (h.lines s' hs') hd'
    have hee' := h.apart_slaves hs' (isActive_of_mem_channels hc') hs
      (isActive_of_mem_channels hc) hss he' he
    apply Field.disjoint_of_covers ((h.sound s' hs').bounds hμ hc' hd').1
      ((h.sound s hs).bounds hμ hc hd).1
    intro i hi' hi
    exact hee' i (hcover' i hi') (hcover i hi)

end Ready

/-- The pin of a channel has a value, which is that of the field as far as the field is in
the image. -/
def Shows (image : Bytes) (s : Slave) (c : Axis.Channel) (F : Field) (name : String) : Prop :=
  ∃ v, s.pins.value? (s.pinName c name) = some v ∧
    (F.stop ≤ image.length → F.raw image = lowBits F.width v.raw)

/-- A bit of the image is what it was. -/
def KeepsBit (b b' : Bus μ) (i : Nat) : Prop :=
  (Master.image b'.master).value.testBit i = (Master.image b.master).value.testBit i

/-- What the output half of a cycle does to the image, and what it leaves alone. -/
structure Written (b b' : Bus μ) : Prop where
  length : (Master.image b'.master).length = (Master.image b.master).length
  control : ∀ s ∈ b.slaves, s.isOperational = true → ∀ c ∈ s.channels,
    ∃ o, s.field? ⟨c.base + 0x40, 0⟩ = some ⟨o, 16⟩ ∧
      Shows (Master.image b'.master) s c ⟨o, 16⟩ "cia-controlword"
  outputs : ∀ s ∈ b.slaves, s.isOperational = true → ∀ c ∈ s.channels, ∀ f d,
    (f, d) ∈ c.enabled.objects .output → f ∉ s.type.packed →
      ∃ o, s.field? ⟨d.index c.base, d.subindex⟩ = some ⟨o, d.format.width⟩ ∧
        Shows (Master.image b'.master) s c ⟨o, d.format.width⟩ d.pinName
  /-- A line is a bit of its object, as far as the byte of the bit is in the image. -/
  lines : ∀ s ∈ b.slaves, s.isOperational = true → s.type.family = .stepper →
    ∀ c ∈ s.channels, ∀ d, (.digitalOutput, d) ∈ c.enabled.objects .output →
      ∃ o, s.field? ⟨d.index c.base, d.subindex⟩ = some ⟨o, 32⟩ ∧
        ∀ n < s.type.digitalOutputs, ∃ on,
          s.pins.value? (s.pinName c s!"dout-{n + 1}") = some (.bit on) ∧
            ((o.position + (16 + n)) / 8 < (Master.image b'.master).length →
              (Master.image b'.master).value.testBit (o.position + (16 + n)) = on)
  /-- Only driven fields in the image change. -/
  others : ∀ i, (∀ s ∈ b.slaves, s.isOperational = true → ∀ c ∈ s.channels, ∀ F name,
    s.Drives c F name → F.stop ≤ (Master.image b.master).length → ¬ F.Covers i) → KeepsBit b b' i
  status : ∀ s ∈ b.slaves, ∀ c ∈ s.channels,
    ∃ o, s.field? ⟨c.base + 0x41, 0⟩ = some ⟨o, 16⟩ ∧
      ∀ i, Field.Covers ⟨o, 16⟩ i → KeepsBit b b' i
  inputs : ∀ s ∈ b.slaves, ∀ c ∈ s.channels, ∀ f d, (f, d) ∈ c.enabled.objects .input →
    ∃ o, s.field? ⟨d.index c.base, d.subindex⟩ = some ⟨o, d.format.width⟩ ∧
      ∀ i, Field.Covers ⟨o, d.format.width⟩ i → KeepsBit b b' i
  /-- The bits of the object of the lines that have no line. -/
  spare : ∀ s ∈ b.slaves, s.type.family = .stepper → ∀ c ∈ s.channels, ∀ d,
    (.digitalOutput, d) ∈ c.enabled.objects .output →
      ∃ o, s.field? ⟨d.index c.base, d.subindex⟩ = some ⟨o, 32⟩ ∧
        ∀ k < 32, (k < 16 ∨ 16 + s.type.digitalOutputs ≤ k) → KeepsBit b b' (o.position + k)
  idle : ∀ s ∈ b.slaves, s.isActive = true → s.isOperational = false →
    ∀ e ∈ s.regs.entries, ∀ i, e.Covers i → KeepsBit b b' i
  /-- No slave changes what belongs to another one. -/
  owned : ∀ s ∈ b.slaves, s.isActive = true → ∀ e ∈ s.regs.entries, ∀ i, e.Covers i →
    (∀ c ∈ s.channels, ∀ F name, s.Drives c F name → ¬ F.Covers i) → KeepsBit b b' i
  pins : b'.slaves.map (·.pins) = b.slaves.map (·.pins)

namespace Ready

variable {s : Slave} {c : Axis.Channel} {F G : Field} {name : String} {x : Axis.Item}
  {a : ObjectAddress} {i : Nat}

/-- A driven field that is in the image holds the value of its pin after the cycle. -/
theorem shows_write (hμ : Master.Orderly μ) (h : b.Ready) (hs : s ∈ b.slaves)
    (ho : s.isOperational = true) (hc : c ∈ s.channels) (hd : s.Drives c F name) :
    Shows (Master.image b.write.value.master) s c F name := by
  obtain ⟨v, hv, hsend⟩ := (h.sound s hs).exists_send ho hc hd
  obtain ⟨hpos, hle, hbit⟩ := (h.sound s hs).bounds hμ hc hd
  have hmem : ⟨F, v.raw⟩ ∈ b.sends := List.mem_flatMap.2 ⟨s, hs, hsend⟩
  refine ⟨v, hv, ?_⟩
  rw [image_write hμ, Assignment.length_applyAll]
  intro hstop
  exact Assignment.raw_applyAll hmem (fun a ha => h.eq_or_disjoint hμ hmem ha)
    ⟨hpos, hle, hbit, hstop⟩

theorem keepsBit_write (hμ : Master.Orderly μ) (h : b.Ready)
    (hi : ∀ s ∈ b.slaves, s.isOperational = true → ∀ c ∈ s.channels, ∀ F name,
      s.Drives c F name → F.stop ≤ (Master.image b.master).length → ¬ F.Covers i) :
    KeepsBit b b.write.value i := by
  rw [KeepsBit, image_write hμ]
  apply Assignment.testBit_applyAll
  intro a ha hfits
  obtain ⟨s, hs, ha⟩ := List.mem_flatMap.1 ha
  obtain ⟨c, hc, name, v, hd, -, -⟩ := (h.sound s hs).exists_drives ha
  exact hi s hs (Slave.isOperational_of_mem_sends ha) c hc a.field name hd hfits.2.2.2

/-- A bit of an entry changes only if the slave of the entry drives it. -/
theorem keepsBit_of_entry (hμ : Master.Orderly μ) (h : b.Ready) (hs : s ∈ b.slaves)
    (ha : s.isActive = true) {e : Registration} (he : e ∈ s.regs.entries) (hi : e.Covers i)
    (hown : s.isOperational = true → ∀ c ∈ s.channels, ∀ F name, s.Drives c F name →
      ¬ F.Covers i) : KeepsBit b b.write.value i := by
  apply h.keepsBit_write hμ
  intro s' hs' ho' c' hc' F name hd _ hF
  by_cases hss : s' = s
  · subst hss
    exact hown ho' c' hc' F name hd hF
  · obtain ⟨e', he', hcover⟩ := (h.sound s' hs').exists_entry hc' (h.lines s' hs') hd
    exact h.apart_slaves hs' (isActive_of_mem_channels hc') hs ha hss he' he i (hcover i hF) hi

/-- A bit of an item changes only if a part of the item is driven. -/
theorem keepsBit_of_item (hμ : Master.Orderly μ) (h : b.Ready) (hs : s ∈ b.slaves)
    (hc : c ∈ s.channels) (hx : x.address? c.base = some a) (hG : s.field? a = some G)
    (hi : G.Covers i) (hpart : ∀ F name, s.Part G x F name → ¬ F.Covers i) :
    KeepsBit b b.write.value i := by
  obtain ⟨e, he, -, heG⟩ := Registrations.exists_of_field?_eq_some hG
  have hactive := isActive_of_mem_channels hc
  apply h.keepsBit_of_entry hμ hs hactive he (Registration.covers_iff.2 ⟨G, heG, hi⟩)
  intro _ c' hc' F name hd hF
  have hapart := h.apart_slave hs hactive
  rcases (h.sound s hs).part_or_apart (h.lines s hs) hapart hc hx hG hc' hd with ⟨-, hp⟩ | hn
  · exact hpart F name hp hF
  · exact hn i hF hi

/-- The bit of a line is the value of its pin. -/
theorem line_write (hμ : Master.Orderly μ) (h : b.Ready) (hs : s ∈ b.slaves)
    (ho : s.isOperational = true) (ht : s.type.family = .stepper) (hc : c ∈ s.channels)
    {d : DriveObject} (hd : (.digitalOutput, d) ∈ c.enabled.objects .output) {o : Offset}
    (hF : s.field? ⟨d.index c.base, d.subindex⟩ = some ⟨o, 32⟩) {n : Nat}
    (hn : n < s.type.digitalOutputs) :
    ∃ on, s.pins.value? (s.pinName c s!"dout-{n + 1}") = some (.bit on) ∧
      ((o.position + (16 + n)) / 8 < (Master.image b.write.value.master).length →
        (Master.image b.write.value.master).value.testBit (o.position + (16 + n)) = on) := by
  obtain ⟨on, hon⟩ := (h.sound s hs).exists_line hc ht hd hn
  obtain ⟨v, hv, hraw⟩ := h.shows_write hμ hs ho hc (.line ht hd hn hF)
  cases hv.symm.trans hon
  refine ⟨on, hon, ?_⟩
  intro hbyte
  have hfits := fits_bitField_iff.2 hbyte
  exact testBit_of_raw_bitField hfits (hraw hfits.2.2.2)

theorem keepsBit_of_input (hμ : Master.Orderly μ) (h : b.Ready) (hs : s ∈ b.slaves)
    (hc : c ∈ s.channels) {f : Feature} {d : DriveObject}
    (hd : (f, d) ∈ c.enabled.objects .input)
    (hG : s.field? ⟨d.index c.base, d.subindex⟩ = some G) (hi : G.Covers i) :
    KeepsBit b b.write.value i := by
  obtain ⟨-, hobject, ht⟩ := FeatureSet.mem_objects.1 hd
  apply h.keepsBit_of_item hμ hs hc (Axis.Item.address?_object _ hobject) hG hi
  intro F name hpart
  cases hpart with
  | object hd' ht' _ =>
    cases hd'.symm.trans hobject
    rw [ht] at ht'
    cases ht'
  | line _ _ =>
    rw [(Feature.object?_digitalOutput hobject).1] at ht
    cases ht

theorem keepsBit_of_spare (hμ : Master.Orderly μ) (h : b.Ready) (hs : s ∈ b.slaves)
    (ht : s.type.family = .stepper) (hc : c ∈ s.channels) {d : DriveObject}
    (hd : (.digitalOutput, d) ∈ c.enabled.objects .output) {o : Offset}
    (hF : s.field? ⟨d.index c.base, d.subindex⟩ = some ⟨o, 32⟩) {k : Nat} (hk : k < 32)
    (hspare : k < 16 ∨ 16 + s.type.digitalOutputs ≤ k) :
    KeepsBit b b.write.value (o.position + k) := by
  obtain ⟨-, hobject, -⟩ := FeatureSet.mem_objects.1 hd
  have hi : Field.Covers ⟨o, 32⟩ (o.position + k) :=
    ⟨Nat.le_add_right _ _, Nat.add_lt_add_left hk _⟩
  apply h.keepsBit_of_item hμ hs hc (Axis.Item.address?_object _ hobject) hF hi
  intro F name hpart
  cases hpart with
  | object _ _ hf => exact absurd (DeviceType.mem_packed_iff.2 ⟨ht, .inl rfl⟩) hf
  | line hn _ =>
    simp only [Field.Covers, bitField, Offset.position_shift]
    omega

/-- The output half of a cycle of a bus that is ready. -/
theorem written (hμ : Master.Orderly μ) (h : b.Ready) : b.Written b.write.value := by
  constructor
  case length => rw [image_write hμ, Assignment.length_applyAll]
  case control =>
    intro s hs ho c hc
    obtain ⟨o, hF⟩ := (h.sound s hs).field_control hc
    exact ⟨o, hF, h.shows_write hμ hs ho hc (.control hF)⟩
  case outputs =>
    intro s hs ho c hc f d hd hf
    obtain ⟨o, hF⟩ := (h.sound s hs).field_object hc (List.mem_append_right _ hd)
    exact ⟨o, hF, h.shows_write hμ hs ho hc (.object hd hf hF)⟩
  case lines =>
    intro s hs ho ht c hc d hd
    obtain ⟨o, hF⟩ := (h.sound s hs).field_outputs hc hd
    exact ⟨o, hF, fun n hn => h.line_write hμ hs ho ht hc hd hF hn⟩
  case others =>
    intro i hi
    exact h.keepsBit_write hμ hi
  case status =>
    intro s hs c hc
    obtain ⟨o, hF⟩ := (h.sound s hs).field_status hc
    refine ⟨o, hF, ?_⟩
    intro i hi
    have hx : Axis.Item.status.address? c.base = some ⟨c.base + 0x41, 0⟩ := rfl
    apply h.keepsBit_of_item hμ hs hc hx hF hi
    intro F name hpart
    cases hpart
  case inputs =>
    intro s hs c hc f d hd
    obtain ⟨o, hF⟩ := (h.sound s hs).field_object hc (List.mem_append_left _ hd)
    exact ⟨o, hF, fun i hi => h.keepsBit_of_input hμ hs hc hd hF hi⟩
  case spare =>
    intro s hs ht c hc d hd
    obtain ⟨o, hF⟩ := (h.sound s hs).field_outputs hc hd
    exact ⟨o, hF, fun k hk hspare => h.keepsBit_of_spare hμ hs ht hc hd hF hk hspare⟩
  case idle =>
    intro s hs ha ho e he i hi
    apply h.keepsBit_of_entry hμ hs ha he hi
    intro ho'
    rw [ho] at ho'
    cases ho'
  case owned =>
    intro s hs ha e he i hi hown
    exact h.keepsBit_of_entry hμ hs ha he hi fun _ => hown
  case pins => exact pins_writeAll b.slaves b.master

end Ready

/-- A configuration that succeeded makes the bus ready until the next one. -/
theorem Session.Valid.ready {registry : Registry} {st : Session μ} (h : st.Valid registry)
    (hr : registry.Bundled) (hc : ∃ n, st.configured? = some (.ok n)) : st.bus.Ready where
  sound := h.sound
  lines s hs := hr.digitalOutputs_le (h.known s hs)
  apart := by
    obtain ⟨n, hn⟩ := hc
    rw [h.apart_iff]
    intro e he
    rw [hn] at he
    cases he

/-- In every run of a bus with bundled devices whose latest configuration succeeded, the output
half of a cycle puts the pins into the fields that operational slaves drive, and changes
nothing else, whatever the image is. -/
theorem written_of_run (hμ : Master.Orderly μ) {registry : Registry} (hr : registry.Bundled)
    (name : String) (m : μ) (ops : List (Operation μ))
    (hc : ∃ n, ((Session.start name m).run registry ops).configured? = some (.ok n)) :
    Written ((Session.start name m).run registry ops).bus
      ((Session.start name m).run registry ops).bus.write.value :=
  (((Session.valid_start registry name m).run ops).ready hr hc).written hμ

end ServoBus.Bus
