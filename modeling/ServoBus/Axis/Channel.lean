import ServoBus.Axis.Layout
import ServoBus.Image.Field
import ServoBus.Request.Writer
import ServoBus.Setup

/-!
# Channels

A channel is one axis of a drive with everything that a cycle needs: the entries and
the pins of its mapped objects, and a writer for every object that is written on
change. The control word, the status word and the supported modes are there for every
axis.

In a cycle the bits of an entry are the raw value of its pin. Reading goes from the
process image to the pins and writing from the pins to the image, and the two touch
disjoint sets of pins.
-/

namespace ServoBus.Axis

/-- A mapped object with a pin. -/
structure Mapped where
  entry : RegRef
  pin : PinRef
  format : Format
deriving DecidableEq, Repr

/-- An object that is written when its pin changes. -/
structure Served where
  writer : Writer
  pin : PinRef
deriving DecidableEq, Repr

structure Channel where
  label : String
  base : UInt16
  enabled : FeatureSet
  /-- The content of the object of supported modes, zero if it cannot be read. -/
  supportedModes : UInt32
  control : Mapped
  status : Mapped
  inputs : List (Feature × Mapped)
  outputs : List (Feature × Mapped)
  packed : List (Feature × RegRef)
  services : List Served
deriving DecidableEq, Repr

/-- The names of the operating modes and their bits in the supported modes. -/
def modeBits : List (String × Nat) :=
  [("pp", 0), ("vl", 1), ("pv", 2), ("tq", 3), ("hm", 5), ("ip", 6), ("csp", 7), ("csv", 8),
   ("cst", 9)]

/-- The format of the control word and the status word. -/
def wordFormat : Format := ⟨16, false⟩

namespace Channel

/-- A mapped object that was registered. -/
structure Registered where
  feature : Feature
  object : DriveObject
  entry : RegRef
deriving DecidableEq, Repr

section Registration

variable {μ : Type} [Master μ]

/-- Registers the objects of one direction. -/
def registerObjects (site : Site) (base : UInt16) :
    List (Feature × DriveObject) → Action Registrations (List Registered)
  | [] => pure []
  | (f, o) :: rest => do
    let entry ← Registrations.register site.position ⟨o.index base, o.subindex⟩ o.format.width
    let others ← registerObjects site base rest
    pure (⟨f, o, entry⟩ :: others)

/-- The entries of a channel in a list of their own: the control word, the status word
and the mapped objects, inputs before outputs. -/
def registerEntries (site : Site) (base : UInt16) (enabled : FeatureSet) :
    Action Registrations (RegRef × RegRef × List Registered) := do
  let control ← Registrations.register site.position ⟨base + Side.output.word, 0⟩ 16
  let status ← Registrations.register site.position ⟨base + Side.input.word, 0⟩ 16
  let inputs ← registerObjects site base (enabled.objects .input)
  let outputs ← registerObjects site base (enabled.objects .output)
  pure (control, status, inputs ++ outputs)

/-- The supported modes of the drive. A drive that does not say is taken to support
none. -/
def readModes (site : Site) (base : UInt16) (label : String) : Setup μ UInt32 :=
  tryCatch (Setup.readWord32 site ⟨base + 0x502, 0⟩) fun _ => do
    Logged.warn s!"slave {site.device}: supported drive modes of {label} unknown, assuming none"
    pure 0

/-- Pins that show which modes are supported. -/
def addModePins (site : Site) (label : String) (modes : UInt32) :
    List (String × Nat) → Setup μ Unit
  | [] => pure ()
  | (mode, bit) :: rest => do
    let pin ← Setup.addPin site (some label) s!"supports-mode-{mode}" .bit .output
    Setup.putPin pin (.bit (modes.toNat.testBit bit))
    addModePins site label modes rest

/-- The mapped objects of a channel, by what becomes of them in a cycle. -/
structure Exchange where
  inputs : List (Feature × Mapped) := []
  outputs : List (Feature × Mapped) := []
  packed : List (Feature × RegRef) := []

/-- Adds a pin for every mapped object that is not packed. -/
def addObjectPins (site : Site) (label : String) (packed : FeatureSet) :
    List Registered → Setup μ Exchange
  | [] => pure {}
  | r :: rest => do
    if r.feature ∈ packed then
      let x ← addObjectPins site label packed rest
      pure { x with packed := (r.feature, r.entry) :: x.packed }
    else
      let isInput := r.object.transfer == .input
      let pin ← Setup.addPin site (some label) r.object.pinName r.object.format.pinKind
        (if isInput then .output else .input)
      let mapped : Mapped := ⟨r.entry, pin, r.object.format⟩
      let x ← addObjectPins site label packed rest
      if isInput then pure { x with inputs := (r.feature, mapped) :: x.inputs }
      else pure { x with outputs := (r.feature, mapped) :: x.outputs }

/-- The request, the pin and the writer of an object that is written on change. What
was sent to the object during setup is what it holds. -/
def addService (site : Site) (base : UInt16) (c : ChannelOptions) (o : DriveObject) :
    Setup μ Served := do
  let address : ObjectAddress := ⟨o.index base, o.subindex⟩
  let create := Setup.onMaster (Master.createRequest site.position address (o.format.width / 8))
  let request ← create.noting fun e =>
    Logged.error s!"slave {site.device}: failed to create SDO request for {address}: {e.message}"
  let pin ← Setup.addPin site (some c.label) o.pinName o.format.pinKind .input
  if let some value := c.sent? o.offset o.subindex then
    Setup.onPins (modify (·.putRaw pin value))
  let current := (← get).pins.raw pin
  let name := Pin.fullName site.master site.slave (some c.label) o.pinName
  pure ⟨.start name request o.format.width current, pin⟩

/-- Registers the entries of a channel and makes its pins and requests. Its objects
must be part of the sync managers already. -/
def register (site : Site) (channel : Nat) (c : ChannelOptions) : Setup μ Channel := do
  let base := Axis.base channel
  let enabled := c.requested.resolve
  let label := some c.label
  let ((control, status, objects), entries) ←
    Action.within ⟨site.device, Sync.entryLimit, []⟩ (registerEntries site base enabled)
  let start ← Setup.onRegs (Registrations.append entries)
  let controlPin ← Setup.addPin site label "cia-controlword" .u32 .input
  let statusPin ← Setup.addPin site label "cia-statusword" .u32 .output
  let modes ← readModes site base c.label
  let modesPin ← Setup.addPin site label "supported-modes" .u32 .output
  Setup.putPin modesPin (.u32 modes)
  addModePins site c.label modes modeBits
  let objects := objects.map fun r => { r with entry := r.entry.rebase start }
  let exchange ← addObjectPins site c.label c.packed objects
  let services ← (enabled.objects .service).mapM fun (_, o) => addService site base c o
  Logged.debug <|
    s!"slave {site.device}: channel {c.label} at 0x{Text.hex 4 base.toNat}, " ++
      s!"{exchange.inputs.length} read PDOs, {exchange.outputs.length} write PDOs, " ++
      s!"{services.length} SDOs"
  pure
    { label := c.label
      base
      enabled
      supportedModes := modes
      control := ⟨control.rebase start, controlPin, wordFormat⟩
      status := ⟨status.rebase start, statusPin, wordFormat⟩
      inputs := exchange.inputs
      outputs := exchange.outputs
      packed := exchange.packed
      services }

end Registration

/-- The entry of a mapped object. -/
def entry? (c : Channel) (f : Feature) : Option RegRef :=
  let mapped := (c.inputs ++ c.outputs).map fun (g, m) => (g, m.entry)
  (mapped ++ c.packed).lookup f

section Cycle

variable {μ : Type} [Master μ]

/-- Sets the pin of an entry from the process image. -/
def readMapped (regs : Registrations) (image : Bytes) (pins : PinTable) (m : Mapped) :
    PinTable :=
  match regs.offset? m.entry with
  | some o => pins.putRaw m.pin ((Field.mk o m.format.width).read m.format.signed image)
  | none => pins

/-- Sets an entry in the process image from its pin. -/
def writeMapped (regs : Registrations) (pins : PinTable) (image : Bytes) (m : Mapped) : Bytes :=
  match regs.offset? m.entry with
  | some o => (Field.mk o m.format.width).write (pins.raw m.pin) image
  | none => image

/-- The input half of a cycle. -/
def read (c : Channel) (regs : Registrations) (image : Bytes) (pins : PinTable) : PinTable :=
  (c.status :: c.inputs.map (·.2)).foldl (readMapped regs image) pins

/-- What the output half of a cycle does to the process image. -/
def writeImage (c : Channel) (regs : Registrations) (pins : PinTable) (image : Bytes) : Bytes :=
  (c.control :: c.outputs.map (·.2)).foldl (writeMapped regs pins) image

@[simp] theorem length_writeMapped (regs : Registrations) (pins : PinTable) (image : Bytes)
    (m : Mapped) : (writeMapped regs pins image m).length = image.length := by
  unfold writeMapped
  split
  · exact Field.length_write ..
  · rfl

@[simp] theorem length_writeImage (c : Channel) (regs : Registrations) (pins : PinTable)
    (image : Bytes) : (c.writeImage regs pins image).length = image.length := by
  unfold writeImage
  induction c.control :: c.outputs.map (·.2) generalizing image with
  | nil => rfl
  | cons m ms ih => rw [List.foldl_cons, ih, length_writeMapped]

/-- One cycle of the writers. -/
def serve (pins : PinTable) : List Served → μ → Logged (List Served × μ)
  | [], m => pure ([], m)
  | s :: rest, m => do
    let (writer, m) ← s.writer.write (pins.raw s.pin) m
    let (rest, m) ← serve pins rest m
    pure ({ s with writer } :: rest, m)

/-- The output half of a cycle. -/
def write (c : Channel) (regs : Registrations) (pins : PinTable) (m : μ) :
    Logged (Channel × μ) := do
  let (services, m) ← serve pins c.services (Master.mapImage (c.writeImage regs pins) m)
  pure ({ c with services }, m)

end Cycle

end Channel

section Configure

variable {μ : Type} [Master μ]

/-- Sets up all channels of a drive: sync managers, entries, pins and requests. -/
def configure (site : Site) (o : Options) : Setup μ (List Channel) := do
  Action.ofChecked (o.validate site.device)
  Setup.onSyncs (Layout.build o)
  o.active.zipIdx.mapM fun (c, channel) => Channel.register site channel c

end Configure

end ServoBus.Axis
