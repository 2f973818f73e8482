import ServoBus.Proofs.Slave.Places

/-!
# What the references of an active slave denote

The rig of a slave refers to entries and pins by their places. `Slave.Holds` says of all these
references that they are in range, and which entry or pin they denote: that of the object, line
or word that they were made for, in the right channel, and for entries at the offset that the
master answered. In a cycle nothing else is looked up, so every lookup succeeds.
-/

namespace ServoBus

/-- The references to entries that a rig holds. -/
def Rig.regRefs (r : Rig) : List RegRef :=
  r.channels.flatMap (fun c => c.control.entry :: c.status.entry ::
      ((c.inputs ++ c.outputs).map (·.2.entry) ++ c.packed.map (·.2))) ++
    (r.inputs ++ r.outputs).map (·.entry)

/-- The references to pins that a rig holds. -/
def Rig.pinRefs (r : Rig) : List PinRef :=
  r.channels.flatMap (fun c => c.control.pin :: c.status.pin ::
      ((c.inputs ++ c.outputs).map (·.2.pin) ++ c.services.map (·.pin))) ++
    (r.inputs ++ r.outputs).flatMap fun p => p.bits.map (·.2)

namespace Slave

/-- A reference denotes the entry of an object, where the master has answered that it is. -/
def Refers (s : Slave) (answers : List (Except Fault Offset)) (ref : RegRef) (a : ObjectAddress)
    (width : Nat) : Prop :=
  ref.index < s.regs.size ∧ ∃ o,
    s.regs.get? ref = some ⟨s.site.position, a, width, some o⟩ ∧
      answers[ref.index]? = some (.ok o)

/-- A reference denotes the pin of this name of a channel. -/
def Shows (s : Slave) (c : Axis.Channel) (ref : PinRef) (name : String)
    (direction : Pin.Direction) (kind : Pin.Kind) : Prop :=
  ref.index < s.pins.size ∧
    s.pins.Has ref
      ⟨Pin.fullName s.site.master s.site.slave (some c.label) name, direction, kind⟩

/-- A mapped object refers to its own entry and to its own pin. -/
def HoldsObject (s : Slave) (answers : List (Except Fault Offset)) (c : Axis.Channel)
    (d : DriveObject) (direction : Pin.Direction) (x : Axis.Mapped) : Prop :=
  s.Refers answers x.entry ⟨d.index c.base, d.subindex⟩ d.format.width ∧
    s.Shows c x.pin d.pinName direction d.format.pinKind

/-- What the references of the channel with this number denote. -/
structure HoldsChannel (s : Slave) (answers : List (Except Fault Offset)) (n : Nat)
    (c : Axis.Channel) : Prop where
  base : c.base = Axis.base n
  control : s.Refers answers c.control.entry ⟨Axis.base n + 0x40, 0⟩ 16 ∧
    s.Shows c c.control.pin "cia-controlword" .input .u32
  status : s.Refers answers c.status.entry ⟨Axis.base n + 0x41, 0⟩ 16 ∧
    s.Shows c c.status.pin "cia-statusword" .output .u32
  inputs : ∀ f x, (f, x) ∈ c.inputs → ∃ d, (f, d) ∈ c.enabled.objects .input ∧
    s.HoldsObject answers c d .output x
  outputs : ∀ f x, (f, x) ∈ c.outputs → ∃ d, (f, d) ∈ c.enabled.objects .output ∧
    s.HoldsObject answers c d .input x
  packed : ∀ f ref, (f, ref) ∈ c.packed → ∃ d, f ∈ c.enabled ∧ f.object? = some d ∧
    s.Refers answers ref ⟨d.index c.base, d.subindex⟩ d.format.width
  services : List.Forall₂
    (fun x ref => s.Shows c ref x.2.pinName .input x.2.format.pinKind)
    (c.enabled.objects .service) (c.services.map (·.pin))

/-- What the references of packed bits denote: the entry of an object of some channel, and a pin
for each line with the number of its bit. -/
def HoldsBits (s : Slave) (answers : List (Except Fault Offset)) (rig : Rig) (f : Feature)
    (lines : List (String × Nat)) (direction : Pin.Direction) (p : PackedBits) : Prop :=
  ∃ (n : Nat) (c : Axis.Channel) (d : DriveObject), rig.channels[n]? = some c ∧
    f ∈ c.enabled ∧ f.object? = some d ∧
      s.Refers answers p.entry ⟨d.index c.base, d.subindex⟩ d.format.width ∧
      List.Forall₂ (fun line b => b.1 = line.2 ∧ s.Shows c b.2 line.1 direction .bit) lines p.bits

/-- What all references of a rig denote. -/
structure Holds (s : Slave) (answers : List (Except Fault Offset)) (rig : Rig) : Prop where
  labels : ∀ (n : Nat) c, rig.channels[n]? = some c →
    c.label = Axis.channelLabel rig.channels.length n
  channels : ∀ (n : Nat) c, rig.channels[n]? = some c → s.HoldsChannel answers n c
  inputs : ∀ p ∈ rig.inputs, s.HoldsBits answers rig .digitalInput
    (Stepper.namedInputs ++ Stepper.numberedInputs s.type.digitalInputs) .output p
  outputs : ∀ p ∈ rig.outputs, s.HoldsBits answers rig .digitalOutput
    (Stepper.numberedOutputs s.type.digitalOutputs) .input p
  regs : ∀ ref ∈ rig.regRefs, ref.index < s.regs.size
  pins : ∀ ref ∈ rig.pinRefs, ref.index < s.pins.size

section Holds

variable {s : Slave} {answers : List (Except Fault Offset)} {rig : Rig}

theorem PlacedBy.refers (h : s.PlacedBy answers) {ref : RegRef} {e : Registration}
    (he : s.regs.Lists ref e) (hslave : e.slave = s.site.position) :
    s.Refers answers ref e.address e.width := by
  rw [Registrations.Lists, Registrations.wanted, List.getElem?_map,
    Option.map_eq_some_iff] at he
  obtain ⟨r, hr, rfl⟩ := he
  obtain ⟨o, ho, hanswer⟩ := h ref.index r hr
  refine ⟨(List.getElem?_eq_some_iff.1 hr).1, o, ?_, hanswer⟩
  obtain ⟨slave, a, width, offset?⟩ := r
  cases ho
  cases hslave
  exact hr

theorem shows_of_has {c : Axis.Channel} {ref : PinRef} {name : String}
    {direction : Pin.Direction} {kind : Pin.Kind}
    (h : s.pins.Has ref
      ⟨Pin.fullName s.site.master s.site.slave (some c.label) name, direction, kind⟩) :
    s.Shows c ref name direction kind := by
  refine ⟨?_, h⟩
  rw [← PinTable.length_shapes]
  exact (List.getElem?_eq_some_iff.1 h).1

theorem PlacedBy.holdsObject (h : s.PlacedBy answers) {c : Axis.Channel} {d : DriveObject}
    {direction : Pin.Direction} {x : Axis.Mapped}
    (hx : x.Wired s.regs s.pins (Axis.objectEntry s.site c.base d)
      (Axis.pinShape s.site c.label d.pinName direction d.format)) :
    s.HoldsObject answers c d direction x :=
  ⟨h.refers hx.entry rfl, shows_of_has hx.pin⟩

/-- A wired channel whose entries are placed holds what it should. -/
theorem PlacedBy.holdsChannel (h : s.PlacedBy answers) {n : Nat} {o : Axis.ChannelOptions}
    {c : Axis.Channel} (hc : c.Wired s.site n o s.regs s.pins) (hs : c.Serves s.site s.pins) :
    s.HoldsChannel answers n c where
  base := hc.base
  control := by
    rw [← hc.base]
    exact ⟨h.refers hc.control.entry rfl, shows_of_has hc.control.pin⟩
  status := by
    rw [← hc.base]
    exact ⟨h.refers hc.status.entry rfl, shows_of_has hc.status.pin⟩
  inputs f x hx := by
    obtain ⟨-, d, hd, hw⟩ := hc.inputs f x hx
    exact ⟨d, hd, h.holdsObject hw⟩
  outputs f x hx := by
    obtain ⟨-, d, hd, hw⟩ := hc.outputs f x hx
    exact ⟨d, hd, h.holdsObject hw⟩
  packed f ref hx := by
    obtain ⟨-, d, hd, hl⟩ := hc.packed f ref hx
    obtain ⟨hf, hobject, -⟩ := Axis.mem_mappedObjects.1 hd
    exact ⟨d, hf, hobject, h.refers hl rfl⟩
  services := hs.imp fun _ _ hhas => shows_of_has hhas

theorem PlacedBy.holdsBits (h : s.PlacedBy answers) {f : Feature} {n : Nat} {c : Axis.Channel}
    {d : DriveObject} {lines : List (String × Nat)} {direction : Pin.Direction} {p : PackedBits}
    (hc : rig.channels[n]? = some c) (hd : (f, d) ∈ Axis.mappedObjects c.enabled)
    (hl : s.regs.Lists p.entry (Axis.objectEntry s.site c.base d))
    (hp : Stepper.Shown s.site c.label direction s.pins lines p.bits) :
    s.HoldsBits answers rig f lines direction p := by
  obtain ⟨hf, hobject, -⟩ := Axis.mem_mappedObjects.1 hd
  exact ⟨n, c, d, hc, hf, hobject, h.refers hl rfl,
    hp.imp fun _ _ hshow => ⟨hshow.1, shows_of_has hshow.2⟩⟩

theorem index_lt_of_mem_regRefs
    (hchannels : ∀ (n : Nat) c, rig.channels[n]? = some c → s.HoldsChannel answers n c)
    (hbits : ∀ p ∈ rig.inputs ++ rig.outputs, ∃ f lines direction,
      s.HoldsBits answers rig f lines direction p) {ref : RegRef} (href : ref ∈ rig.regRefs) :
    ref.index < s.regs.size := by
  rcases List.mem_append.1 href with href | href
  · obtain ⟨c, hc, href⟩ := List.mem_flatMap.1 href
    obtain ⟨n, hn⟩ := List.mem_iff_getElem?.1 hc
    have h := hchannels n c hn
    rcases List.mem_cons.1 href with rfl | href
    · exact h.control.1.1
    rcases List.mem_cons.1 href with rfl | href
    · exact h.status.1.1
    rcases List.mem_append.1 href with href | href
    · obtain ⟨⟨f, x⟩, hx, rfl⟩ := List.mem_map.1 href
      rcases List.mem_append.1 hx with hx | hx
      · obtain ⟨d, -, hd⟩ := h.inputs f x hx
        exact hd.1.1
      · obtain ⟨d, -, hd⟩ := h.outputs f x hx
        exact hd.1.1
    · obtain ⟨⟨f, ref⟩, hx, rfl⟩ := List.mem_map.1 href
      obtain ⟨d, -, -, hd⟩ := h.packed f ref hx
      exact hd.1
  · obtain ⟨p, hp, rfl⟩ := List.mem_map.1 href
    obtain ⟨f, lines, direction, n, c, d, -, -, -, hd, -⟩ := hbits p hp
    exact hd.1

theorem index_lt_of_mem_pinRefs
    (hchannels : ∀ (n : Nat) c, rig.channels[n]? = some c → s.HoldsChannel answers n c)
    (hbits : ∀ p ∈ rig.inputs ++ rig.outputs, ∃ f lines direction,
      s.HoldsBits answers rig f lines direction p) {ref : PinRef} (href : ref ∈ rig.pinRefs) :
    ref.index < s.pins.size := by
  rcases List.mem_append.1 href with href | href
  · obtain ⟨c, hc, href⟩ := List.mem_flatMap.1 href
    obtain ⟨n, hn⟩ := List.mem_iff_getElem?.1 hc
    have h := hchannels n c hn
    rcases List.mem_cons.1 href with rfl | href
    · exact h.control.2.1
    rcases List.mem_cons.1 href with rfl | href
    · exact h.status.2.1
    rcases List.mem_append.1 href with href | href
    · obtain ⟨⟨f, x⟩, hx, rfl⟩ := List.mem_map.1 href
      rcases List.mem_append.1 hx with hx | hx
      · obtain ⟨d, -, hd⟩ := h.inputs f x hx
        exact hd.2.1
      · obtain ⟨d, -, hd⟩ := h.outputs f x hx
        exact hd.2.1
    · obtain ⟨x, -, hx⟩ := exists_left_of_forall₂ h.services href
      exact hx.1
  · obtain ⟨p, hp, href⟩ := List.mem_flatMap.1 href
    obtain ⟨b, hb, rfl⟩ := List.mem_map.1 href
    obtain ⟨f, lines, direction, n, c, d, -, -, -, -, hlines⟩ := hbits p hp
    obtain ⟨line, -, hline⟩ := exists_left_of_forall₂ hlines hb
    exact hline.2.1

/-- A rig that is wired and holds its pins, with entries that are placed, is in order. -/
theorem PlacedBy.holds (h : s.PlacedBy answers)
    (hw : rig.Wired s.site s.type s.regs s.pins) (hh : rig.Held s.site s.type s.regs s.pins) :
    s.Holds answers rig := by
  have hchannels (n : Nat) (c : Axis.Channel) (hc : rig.channels[n]? = some c) :
      s.HoldsChannel answers n c := by
    obtain ⟨o, -, hwired⟩ := hw.channels n c hc
    exact h.holdsChannel hwired (hh.services n c hc)
  have hinputs (p : PackedBits) (hp : p ∈ rig.inputs) :
      s.HoldsBits answers rig .digitalInput
        (Stepper.namedInputs ++ Stepper.numberedInputs s.type.digitalInputs) .output p := by
    obtain ⟨n, c, d, hc, hd, hshow⟩ := hh.inputs p hp
    exact h.holdsBits hc hd hshow.1 hshow.2
  have houtputs (p : PackedBits) (hp : p ∈ rig.outputs) :
      s.HoldsBits answers rig .digitalOutput
        (Stepper.numberedOutputs s.type.digitalOutputs) .input p := by
    obtain ⟨-, n, c, d, hc, hd, hdrive⟩ := hw.outputs p hp
    exact h.holdsBits hc hd hdrive.1 hdrive.2
  have hbits (p : PackedBits) (hp : p ∈ rig.inputs ++ rig.outputs) : ∃ f lines direction,
      s.HoldsBits answers rig f lines direction p := by
    rcases List.mem_append.1 hp with hp | hp
    · exact ⟨_, _, _, hinputs p hp⟩
    · exact ⟨_, _, _, houtputs p hp⟩
  constructor
  case labels => exact hh.labels
  case channels => exact hchannels
  case inputs => exact hinputs
  case outputs => exact houtputs
  case regs => exact fun ref href => index_lt_of_mem_regRefs hchannels hbits href
  case pins => exact fun ref href => index_lt_of_mem_pinRefs hchannels hbits href

end Holds

end Slave

end ServoBus
