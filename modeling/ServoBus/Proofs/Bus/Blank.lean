import ServoBus.Proofs.Bus.Seeds
import ServoBus.Proofs.Bus.Write
import ServoBus.Proofs.Slave.Blank

/-!
# What cycles leave of the values that output objects were sent

A setting can send a value to an object that is also mapped as an output. The pin of such an
object does not get the value, but starts with zero, and the first cycle that finds the slave
operational puts the pin into the field of the object. So as long as the host leaves the pin
alone, what was sent stays in force exactly if it is zero.
-/

namespace ServoBus

theorem Master.Orderly.traced {μ : Type} [Master μ] (h : Master.Orderly μ) :
    Master.Orderly (Traced μ) where
  image_setImage image t := h.image_setImage image t.master
  image_requestState r t := h.image_requestState r t.master
  image_startWrite r content t := h.image_startWrite r content t.master
  bit_lt slave a t t' o ht := by
    obtain ⟨ho, -⟩ := Prod.mk.inj ht
    exact h.bit_lt slave a t.master _ o (Prod.ext ho rfl)

namespace Slave

variable {s t : Slave} {c : Axis.Channel} {ref : PinRef} {name : String} {v : Pin.Value}

/-- Slaves with the same frame drive the same fields, from pins of the same names. -/
theorem exists_drives_of_frame_eq {F : Field} (h : s.frame = t.frame) (hc : c ∈ t.channels)
    (hd : t.Drives c F name) :
    ∃ c' ∈ s.channels, s.Drives c' F name ∧ s.pinName c' name = t.pinName c name := by
  obtain ⟨rig, hrig, hmem⟩ := mem_channels.1 hc
  simp only [frame, Frame.mk.injEq, hrig, Option.map_some] at h
  obtain ⟨hsite, htype, hregs, -, hrigs⟩ := h
  obtain ⟨rig', hrig', hidle⟩ := Option.map_eq_some_iff.1 hrigs
  obtain ⟨n, hn⟩ := List.mem_iff_getElem?.1 hmem
  obtain ⟨c', hc', heq⟩ := Rig.exists_channel_of_idle_eq hidle.symm hn
  obtain ⟨hbase, hlabel, henabled⟩ := Axis.Channel.eq_of_idle_eq heq
  refine ⟨c', mem_channels.2 ⟨rig', hrig', List.mem_of_getElem? hc'⟩, ?_, ?_⟩
  · have hfield (a : ObjectAddress) : s.field? a = t.field? a := by rw [field?, field?, hregs]
    cases hd with
    | control hF => exact .control (by rwa [hfield, hbase])
    | object hd hf hF =>
      exact .object (henabled ▸ hd) (htype ▸ hf) (by rwa [hfield, hbase])
    | line ht hd hn hF =>
      exact .line (htype ▸ ht) (henabled ▸ hd) (htype ▸ hn) (by rwa [hfield, hbase])
  · rw [pinName, pinName, hsite, hlabel]

/-- The slave has the frame of another one, and in a pin that the host sets is a value. -/
structure Retains (t : Slave) (ref : PinRef) (name : String) (v : Pin.Value) (s : Slave) :
    Prop where
  frame : s.frame = t.frame
  pin : s.pins.pin? ref = some ⟨name, .input, v⟩

theorem Retains.lasting {μ : Type} [Master μ] (ht : t.isActive = true) (ref : PinRef)
    (name : String) (v : Pin.Value) : Lasting μ name (t.Retains ref name v) where
  active s h := by
    rw [isActive_eq, ← h.frame, ← isActive_eq] at ht
    exact Option.isSome_iff_exists.1 ht
  pins s pins h hn hshapes hvalue :=
    ⟨(s.frame_of_pins hshapes).trans h.frame, PinTable.pin?_of_value?_eq hn hshapes h.pin hvalue⟩
  read s _ h hs state image :=
    ⟨(frame_read { s with state } image).trans h.frame, hs.pin?_of_read h.pin nofun state image⟩
  write s m h := by
    refine ⟨(s.frame_write m).trans h.frame, ?_⟩
    rw [pins_write]
    exact h.pin

end Slave

namespace Bus

variable {μ : Type}

/-- In a cycle the slave with a number takes part, and a field of it is in the image. -/
def Reaches [Master μ] (b : Bus μ) (n : Nat) (F : Field) : Prop :=
  ∃ s, b.slaves[n]? = some s ∧ s.isOperational = true ∧ F.stop ≤ (Master.image b.master).length

variable [Master μ] {n k : Nat} {s : Slave} {c : Axis.Channel} {f : Feature} {d : DriveObject}

/-- What becomes of the values that an output object was sent when a bus was configured: in the
pin there is zero, and a cycle puts it into the field of the object. -/
structure Replaces (b b' : Bus (Traced μ)) (n : Nat) (s : Slave) (c : Axis.Channel)
    (d : DriveObject) (sent : List MasterCall) (F : Field) : Prop where
  /-- These are the calls of the activation of the slave. -/
  calls : (b.masterBehind (n + 1)).calls = sent ++ (b.masterBehind n).calls
  field : s.field? ⟨d.index c.base, d.subindex⟩ = some F
  width : F.width = d.format.width
  pin : ∃ v, b'.slavePin? n (s.pinName c d.pinName) = some v ∧ v.raw = 0
  zero : b'.Reaches n F → F.raw (Master.image b'.write.value.master) = 0
  inForce_iff : b'.Reaches n F → ∀ content,
    lastSent? s.site.position ⟨d.index c.base, d.subindex⟩ sent = some content →
      (payload F.width (F.raw (Master.image b'.write.value.master)) = content ↔
        content = payload F.width 0)

/-- After a configuration the pin of a mapped output object has zero. -/
theorem exists_blank_pin {b : Bus μ} (hs : b.configured.slaves[n]? = some s)
    (hc : s.channels[k]? = some c) (hd : (f, d) ∈ c.enabled.objects .output)
    (hf : f ∉ s.type.packed) :
    ∃ ref v, s.pins.pin? ref = some ⟨s.pinName c d.pinName, .input, v⟩ ∧ v.raw = 0 := by
  have hmem := List.mem_of_getElem? hc
  obtain ⟨rig, hrig, hrigc⟩ := Slave.mem_channels.1 hmem
  obtain ⟨t, -, hact⟩ := getElem?_activateAll hs
  have hsound := (of_mem_activateAll (List.mem_of_getElem? hs)).1
  obtain ⟨_, o, -, -, hpacked, hwired⟩ := hsound.exists_wired hmem
  rw [← hpacked] at hf
  obtain ⟨m, hm, hw⟩ := hwired.exists_output hd hf
  obtain ⟨⟨name, direction, v⟩, hpin, hshape⟩ := PinTable.exists_pin?_of_has hw.pin
  simp only [Pin.shape, Axis.pinShape, Pin.Shape.mk.injEq] at hshape
  obtain ⟨rfl, rfl, -⟩ := hshape
  have hblank := Slave.blank_of_activate hact hrig c hrigc m.pin (List.mem_map_of_mem hm)
  rw [PinTable.raw_of_pin? hpin] at hblank
  exact ⟨m.pin, v, hpin, hblank.2⟩

/-- A driven field that is reached holds what is in the pin, if that has not changed. -/
theorem Ready.raw_write_of_retains {b : Bus μ} (hμ : Master.Orderly μ) (h : b.Ready)
    {q : Slave} (hq : b.slaves[n]? = some q) {ref : PinRef} {name : String} {v : Pin.Value}
    (hkept : s.Retains ref (s.pinName c name) v q) (hc : c ∈ s.channels) {F : Field}
    (hd : s.Drives c F name) (hreach : b.Reaches n F) :
    F.raw (Master.image b.write.value.master) = lowBits F.width v.raw := by
  obtain ⟨q', hq', ho, hstop⟩ := hreach
  cases hq.symm.trans hq'
  obtain ⟨c', hc', hd', hname⟩ := Slave.exists_drives_of_frame_eq hkept.frame hc hd
  obtain ⟨v', hv', hraw⟩ := h.shows_write hμ (List.mem_of_getElem? hq) ho hc' hd'
  obtain ⟨rig, hrig, -⟩ := Slave.mem_channels.1 hc'
  have hnames := (h.sound q (List.mem_of_getElem? hq) rig hrig).1.names
  rw [hname, PinTable.value?_of_pin? hnames hkept.pin] at hv'
  cases hv'
  refine hraw ?_
  rw [image_write hμ, Assignment.length_applyAll]
  exact hstop

/-- In every run, from a configuration that succeeded to the next one, cycles put zero into the
field of an output object as long as the host leaves its pin alone, whatever was sent to the
object in the configuration. -/
theorem replaces_of_run (hμ : Master.Orderly μ) {registry : Registry} (hr : registry.Bundled)
    (start : String) (m : Traced μ) (before after : List (Operation (Traced μ)))
    (hs : ((Session.start start m).run registry before).bus.configured.slaves[n]? = some s)
    (hc : s.channels[k]? = some c) (hd : (f, d) ∈ c.enabled.objects .output)
    (hf : f ∉ s.type.packed) (hafter : .configure ∉ after)
    (hkeeps : ((Session.start start m).run registry (before ++ [.configure])).HostKeeps registry n
      (s.pinName c d.pinName) after)
    (hok : ∃ count, ((Session.start start m).run registry
      (before ++ .configure :: after)).configured? = some (.ok count)) :
    ∃ sent F, Replaces ((Session.start start m).run registry before).bus
      ((Session.start start m).run registry (before ++ .configure :: after)).bus
        n s c d sent F := by
  have hmem := List.mem_of_getElem? hc
  obtain ⟨rig, hrig, -⟩ := Slave.mem_channels.1 hmem
  obtain ⟨t, ht, hact⟩ := getElem?_activateAll hs
  obtain ⟨sent, hcalls, -⟩ := Slave.seeds_of_activate hact hrig
  obtain ⟨o, hF⟩ := (of_mem_activateAll (List.mem_of_getElem? hs)).1.field_object hmem
    (List.mem_append_right _ hd)
  obtain ⟨ref, v, hpin, hv⟩ := exists_blank_pin hs hc hd hf
  have hactive : s.isActive = true := by rw [Slave.isActive, hrig]; rfl
  -- until the next configuration the slave keeps its frame, and its pin the zero
  have hlasting := Slave.Retains.lasting (μ := Traced μ) hactive ref (s.pinName c d.pinName) v
  obtain ⟨q, hq, hkept⟩ :=
    Session.lasting_run_configured hlasting hafter hkeeps hs ⟨rfl, hpin⟩
  have hready := ((Session.valid_start registry start m).run _).ready hr hok
  obtain ⟨rig', hrig'⟩ := hlasting.active q hkept
  have hnames := (hready.sound q (List.mem_of_getElem? hq) rig' hrig').1.names
  have hzero (hreach : Reaches _ n ⟨o, d.format.width⟩) :=
    hready.raw_write_of_retains hμ.traced hq hkept hmem (.object hd hf hF) hreach
  rw [hv, lowBits_zero] at hzero
  refine ⟨sent, ⟨o, d.format.width⟩, ?_⟩
  constructor
  case calls => exact (congrArg Traced.calls (masterBehind_succ ht)).trans hcalls
  case field => exact hF
  case width => rfl
  case pin =>
    have hvalue := PinTable.value?_of_pin? hnames hkept.pin
    exact ⟨v, Option.bind_eq_some_iff.2 ⟨q, hq, hvalue⟩, hv⟩
  case zero => exact hzero
  case inForce_iff =>
    intro hreach content _
    rw [hzero hreach]
    exact eq_comm

/-- A stepper drive whose profile velocity is mapped and is sent a value. -/
def velocityOperations : List (Operation (Traced Bench)) :=
  [.addSlave { name := "a", position := 0, typeName := "EM3E-556E",
               settings := [("enableProfileVelocity", "true"), ("profileVelocity", "500")] }]

/-- The session with this drive, with an image that has room for all entries. -/
def velocitySession : Session (Traced Bench) :=
  (Session.start "m0" ⟨⟨List.replicate 1100 0⟩, []⟩).run Registry.bundled velocityOperations

/-- The drive is configured and found operational, and the host sets no pin. -/
def velocityCycle : Session (Traced Bench) :=
  velocitySession.run Registry.bundled [.configure, .read]

/-- The velocity is mapped with a pin of its own, and the bench has a place for it. -/
theorem exists_velocity : ∃ (s : Slave) (c : Axis.Channel) (d : DriveObject),
    velocitySession.bus.configured.slaves[0]? = some s ∧ s.channels[0]? = some c ∧
      (.profileVelocity, d) ∈ c.enabled.objects .output ∧ .profileVelocity ∉ s.type.packed ∧
      s.site.position = 0 ∧ s.pinName c d.pinName = "m0.a.srv-profile-velocity" ∧
      (⟨d.index c.base, d.subindex⟩ : ObjectAddress) = ⟨0x6081, 0⟩ ∧
      s.field? ⟨d.index c.base, d.subindex⟩ = some ⟨⟨516, 0⟩, 32⟩ := by
  have hplaces : (velocitySession.bus.configured.slaves[0]?.bind fun s =>
      s.channels[0]?.bind fun c =>
        ((c.enabled.objects .output).find? (·.1 == .profileVelocity)).map fun q =>
          (q.1, decide (q.1 ∉ s.type.packed), s.site.position, s.pinName c q.2.pinName,
            (⟨q.2.index c.base, q.2.subindex⟩ : ObjectAddress))) =
        some (.profileVelocity, true, 0, "m0.a.srv-profile-velocity", ⟨0x6081, 0⟩) ∧
      (velocitySession.bus.configured.slaves[0]?.bind (·.field? ⟨0x6081, 0⟩)) =
        some ⟨⟨516, 0⟩, 32⟩ := by decide +kernel
  obtain ⟨hplace, hfield⟩ := hplaces
  obtain ⟨s, hs, hplace⟩ := Option.bind_eq_some_iff.1 hplace
  obtain ⟨c, hc, hplace⟩ := Option.bind_eq_some_iff.1 hplace
  obtain ⟨⟨f, d⟩, hd, hplace⟩ := Option.map_eq_some_iff.1 hplace
  simp only [Prod.mk.injEq, decide_eq_true_eq] at hplace
  obtain ⟨rfl, hf, hposition, hname, haddress⟩ := hplace
  rw [hs, Option.bind_some] at hfield
  exact ⟨s, c, d, hs, hc, List.mem_of_find?_eq_some hd, hf, hposition, hname, haddress,
    haddress ▸ hfield⟩

/-- The drive takes part in the cycle, and its field is in the image. -/
theorem reaches_velocityCycle : velocityCycle.bus.Reaches 0 ⟨⟨516, 0⟩, 32⟩ := by
  have hfound : (velocityCycle.bus.slaves[0]?.map (·.isOperational)) = some true ∧
      Field.stop ⟨⟨516, 0⟩, 32⟩ ≤ (Master.image velocityCycle.bus.master).length := by
    decide +kernel
  obtain ⟨s, hs, ho⟩ := Option.map_eq_some_iff.1 hfound.1
  exact ⟨s, hs, ho, hfound.2⟩

/-- The field gets a value that is not the one that was sent. -/
theorem sent_lost_velocity : ∃ (s : Slave) (c : Axis.Channel) (d : DriveObject) (F : Field)
    (content : Bytes), velocitySession.bus.configured.slaves[0]? = some s ∧
      s.channels[0]? = some c ∧ (.profileVelocity, d) ∈ c.enabled.objects .output ∧
      .profileVelocity ∉ s.type.packed ∧ s.field? ⟨d.index c.base, d.subindex⟩ = some F ∧
      velocityCycle.bus.Reaches 0 F ∧
      lastSent? s.site.position ⟨d.index c.base, d.subindex⟩ velocityCycle.bus.master.calls =
        some content ∧
      payload F.width (F.raw (Master.image velocityCycle.bus.write.value.master)) ≠ content := by
  obtain ⟨s, c, d, hs, hc, hd, hf, hposition, -, haddress, hF⟩ := exists_velocity
  have hlost : lastSent? 0 ⟨0x6081, 0⟩ velocityCycle.bus.master.calls = some [0xf4, 1, 0, 0] ∧
      payload 32 (Field.raw ⟨⟨516, 0⟩, 32⟩ (Master.image velocityCycle.bus.write.value.master)) ≠
        [0xf4, 1, 0, 0] := by decide +kernel
  refine ⟨s, c, d, _, [0xf4, 1, 0, 0], hs, hc, hd, hf, hF, reaches_velocityCycle, ?_, hlost.2⟩
  rw [hposition, haddress]
  exact hlost.1

end Bus

end ServoBus
