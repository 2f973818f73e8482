import ServoBus.Brittle
import ServoBus.Device.Words
import ServoBus.Proofs.Device.Bundled
import ServoBus.Proofs.Device.Held
import ServoBus.Registration.Words

/-!
# Cycles in machine words

What a cycle of a rig does in words is what it does with exact numbers. It does not break as long
as the rig is wired and the bits of all entries can be counted: the fields of mapped objects start
where entries start, and the lines are bits of entries of 32 bits.
-/

namespace ServoBus

variable {regs : Registrations} {o : Offset}

namespace Registrations

variable {ref : RegRef} {e : Registration}

theorem position_lt (h : ∀ e ∈ regs.entries, e.Fits) (ho : regs.offset? ref = some o) :
    o.position < USize.size := by
  obtain ⟨e, he, heo⟩ := Option.bind_eq_some_iff.1 ho
  exact Nat.lt_of_le_of_lt (Nat.le_add_right ..) (h e (List.mem_of_getElem? he) o heo)

theorem Lists.position_add_lt (he : regs.Lists ref e) (h : ∀ e ∈ regs.entries, e.Fits)
    (ho : regs.offset? ref = some o) : o.position + e.width < USize.size := by
  obtain ⟨q, hq, hqo⟩ := Option.bind_eq_some_iff.1 ho
  rw [lists_iff, hq, Option.map_some, Option.some_inj] at he
  rw [← he, Registration.width_unplaced]
  exact h q (List.mem_of_getElem? hq) o hqo

end Registrations

variable {μ : Type} [Master μ]

theorem Master.yields_mapImage {P : Prop} {f? : Bytes → Option Bytes} {f : Bytes → Bytes}
    (h : ∀ image, Yields P (f? image) (f image)) (m : μ) :
    Yields P (mapImage? f? m) (mapImage f m) :=
  (h (image m)).bind fun _ => yields_some _

namespace Axis.Channel

theorem yields_readMapped (regs : Registrations) (image : Bytes) (pins : PinTable) (m : Mapped) :
    Yields (∀ e ∈ regs.entries, e.Fits) (readMapped? regs image pins m)
      (readMapped regs image pins m) := by
  unfold readMapped? readMapped
  cases ho : regs.offset? m.entry with
  | none => exact yields_some _
  | some o =>
    have hread := (Field.yields_read ⟨o, m.format.width⟩ m.format.signed image).mono fun h =>
      Registrations.position_lt h ho
    exact hread.bind fun _ => yields_some _

theorem yields_writeMapped (regs : Registrations) (pins : PinTable) (image : Bytes) (m : Mapped) :
    Yields (∀ e ∈ regs.entries, e.Fits) (writeMapped? regs pins image m)
      (writeMapped regs pins image m) := by
  unfold writeMapped? writeMapped
  cases ho : regs.offset? m.entry with
  | none => exact yields_some _
  | some o => exact (Field.yields_write _ _ image).mono fun h => Registrations.position_lt h ho

theorem yields_read (c : Channel) (regs : Registrations) (image : Bytes) (pins : PinTable) :
    Yields (∀ e ∈ regs.entries, e.Fits) (c.read? regs image pins) (c.read regs image pins) :=
  Yields.foldlM (fun m _ pins => yields_readMapped regs image pins m) pins

theorem yields_writeImage (c : Channel) (regs : Registrations) (pins : PinTable) (image : Bytes) :
    Yields (∀ e ∈ regs.entries, e.Fits) (c.writeImage? regs pins image)
      (c.writeImage regs pins image) :=
  Yields.foldlM (fun m _ image => yields_writeMapped regs pins image m) image

theorem yields_write (c : Channel) (regs : Registrations) (pins : PinTable) (m : μ) :
    Yields (∀ e ∈ regs.entries, e.Fits) (c.write? regs pins m).run.value
      (c.write regs pins m).value := by
  rw [write?, Logged.value_run_bind]
  exact (Master.yields_mapImage (c.yields_writeImage regs pins) m).bind fun _ => yields_some _

end Axis.Channel

namespace PackedBits

/-- The bits that have pins can be counted. -/
def Within (p : PackedBits) (regs : Registrations) : Prop :=
  ∀ o ∈ regs.offset? p.entry, ∀ bit ∈ p.bits, o.position + bit.1 < USize.size

theorem yields_readBit (o : Offset) (image : Bytes) (pins : PinTable) (bit : Nat × PinRef) :
    Yields (o.position + bit.1 < USize.size) (readBit? o image pins bit)
      (readBit o image pins bit) := by
  refine (o.yields_shift bit.1).bind fun _ => ?_
  rw [← Offset.position_shift]
  exact (ServoBus.yields_readBit (o.shift bit.1) image).bind fun _ => yields_some _

theorem yields_writeBit (o : Offset) (pins : PinTable) (image : Bytes) (bit : Nat × PinRef) :
    Yields (o.position + bit.1 < USize.size) (writeBit? o pins image bit)
      (writeBit o pins image bit) := by
  refine (o.yields_shift bit.1).bind fun _ => ?_
  rw [← Offset.position_shift]
  exact ServoBus.yields_writeBit (o.shift bit.1) _ image

theorem yields_read (p : PackedBits) (regs : Registrations) (image : Bytes) (pins : PinTable) :
    Yields (p.Within regs) (p.read? regs image pins) (p.read regs image pins) := by
  unfold read? read
  cases ho : regs.offset? p.entry with
  | none => exact yields_some _
  | some o =>
    refine Yields.foldlM (fun bit hbit pins => ?_) pins
    exact (yields_readBit o image pins bit).mono fun h => h o ho bit hbit

theorem yields_write (p : PackedBits) (regs : Registrations) (pins : PinTable) (image : Bytes) :
    Yields (p.Within regs) (p.write? regs pins image) (p.write regs pins image) := by
  unfold write? write
  cases ho : regs.offset? p.entry with
  | none => exact yields_some _
  | some o =>
    refine Yields.foldlM (fun bit hbit image => ?_) image
    exact (yields_writeBit o pins image bit).mono fun h => h o ho bit hbit

end PackedBits

namespace Rig

/-- All that a cycle of the rig has to count can be counted. -/
structure Within (rig : Rig) (regs : Registrations) : Prop where
  entries : ∀ e ∈ regs.entries, e.Fits
  inputs : ∀ p ∈ rig.inputs, p.Within regs
  outputs : ∀ p ∈ rig.outputs, p.Within regs

theorem yields_read (rig : Rig) (regs : Registrations) (image : Bytes) (pins : PinTable) :
    Yields (rig.Within regs) (rig.read? regs image pins) (rig.read regs image pins) := by
  have hchannels := Yields.foldlM (fun c (_ : c ∈ rig.channels) pins =>
    (c.yields_read regs image pins).mono fun h : rig.Within regs => h.entries) pins
  refine hchannels.bind fun _ => Yields.foldlM (fun p hp pins => ?_) _
  exact (p.yields_read regs image pins).mono fun h => h.inputs p hp

theorem yields_writeChannels (regs : Registrations) (pins : PinTable) (cs : List Axis.Channel)
    (m : μ) : Yields (∀ e ∈ regs.entries, e.Fits) (writeChannels? regs pins cs m).run.value
      (writeChannels regs pins cs m).value := by
  induction cs generalizing m with
  | nil => exact yields_some _
  | cons c cs ih =>
    rw [writeChannels?, Logged.value_run_bind]
    refine (c.yields_write regs pins m).bind fun _ => ?_
    rw [Logged.value_run_bind]
    exact (ih _).bind fun _ => yields_some _

theorem yields_write (rig : Rig) (regs : Registrations) (pins : PinTable) (m : μ) :
    Yields (rig.Within regs) (rig.write? regs pins m).run.value (rig.write regs pins m).value := by
  have hbits (image : Bytes) : Yields (rig.Within regs)
      (rig.outputs.foldlM (PackedBits.write? regs pins) image)
      (rig.outputs.foldl (PackedBits.write regs pins) image) :=
    Yields.foldlM (fun p hp image => (p.yields_write regs pins image).mono fun h =>
      h.outputs p hp) image
  have hchannels := (yields_writeChannels regs pins rig.channels m).mono
    fun h : rig.Within regs => h.entries
  rw [write?, Logged.value_run_bind]
  refine hchannels.bind fun _ => ?_
  rw [Logged.value_run_bind]
  exact (Master.yields_mapImage hbits _).bind fun _ => yields_some _

end Rig

/-- Every line has a bit of its own in an object of 32 bits. -/
def DeviceType.LinesFit (t : DeviceType) : Prop := t.digitalInputs ≤ 28 ∧ t.digitalOutputs ≤ 16

theorem Registry.Bundled.linesFit {r : Registry} (hr : r.Bundled) {t : DeviceType}
    (ht : t ∈ r.types) : t.LinesFit :=
  ⟨Nat.le_trans (hr.digitalInputs_le ht) (by decide), hr.digitalOutputs_le ht⟩

namespace Rig

variable {site : Site} {t : DeviceType} {pins : PinTable} {rig : Rig}

/-- The lines of an object of 32 bits do not reach beyond its entry. -/
theorem within_of_shown (h : ∀ e ∈ regs.entries, e.Fits) {p : PackedBits} {e : Registration}
    (he : regs.Lists p.entry e) (hwidth : e.width = 32) {label : String}
    {direction : Pin.Direction} {lines : List (String × Nat)}
    (hshown : Stepper.Shown site label direction pins lines p.bits)
    (hlines : ∀ line ∈ lines, line.2 < 32) : p.Within regs := by
  intro o ho bit hbit
  have hentry := he.position_add_lt h ho
  obtain ⟨line, hline, hnumber, -⟩ := hshown.exists_line hbit
  have hlt := hlines line hline
  omega

theorem within (hw : rig.Wired site t regs pins) (hh : rig.Held site t regs pins)
    (ht : t.LinesFit) (h : ∀ e ∈ regs.entries, e.Fits) : rig.Within regs where
  entries := h
  inputs p hp := by
    obtain ⟨n, c, d, -, hd, he, hshown⟩ := hh.inputs p hp
    refine within_of_shown h he ?_ hshown fun line hline => ?_
    · cases (Axis.mem_mappedObjects.1 hd).2.1
      rfl
    · rcases List.mem_append.1 hline with hline | hline
      · exact (by decide : ∀ line ∈ Stepper.namedInputs, line.2 < 32) line hline
      · obtain ⟨k, hk, rfl⟩ := List.mem_map.1 hline
        have hcount := ht.1
        rw [List.mem_range] at hk
        dsimp only
        omega
  outputs p hp := by
    obtain ⟨-, n, c, d, -, hd, he, hshown⟩ := hw.outputs p hp
    refine within_of_shown h he ?_ hshown fun line hline => ?_
    · cases (Axis.mem_mappedObjects.1 hd).2.1
      rfl
    · obtain ⟨k, hk, rfl⟩ := Stepper.mem_numberedOutputs.1 hline
      have hcount := ht.2
      dsimp only
      omega

end Rig

end ServoBus
