import ServoBus.Device.Rig
import ServoBus.Image.Words

/-!
# Rigs in machine words

A cycle of a rig whose offsets are counts. It goes through the channels and the objects with lines
in the same order, and it breaks at the first field or line whose place does not fit.
-/

namespace ServoBus

/-- Changes the process image, if that does not break. -/
def Master.mapImage? {μ : Type} [Master μ] (f : Bytes → Option Bytes) (m : μ) : Option μ := do
  let image ← f (image m)
  some (setImage image m)

namespace Axis.Channel

variable {μ : Type} [Master μ]

/-- Sets the pin of an entry from the process image. -/
def readMapped? (regs : Registrations) (image : Bytes) (pins : PinTable) (m : Mapped) :
    Option PinTable :=
  match regs.offset? m.entry with
  | some o => do
    let v ← (Field.mk o m.format.width).read? m.format.signed image
    some (pins.putRaw m.pin v)
  | none => some pins

/-- Sets an entry in the process image from its pin. -/
def writeMapped? (regs : Registrations) (pins : PinTable) (image : Bytes) (m : Mapped) :
    Option Bytes :=
  match regs.offset? m.entry with
  | some o => (Field.mk o m.format.width).write? (pins.raw m.pin) image
  | none => some image

/-- The input half of a cycle. -/
def read? (c : Channel) (regs : Registrations) (image : Bytes) (pins : PinTable) :
    Option PinTable :=
  (c.status :: c.inputs.map (·.2)).foldlM (readMapped? regs image) pins

/-- What the output half of a cycle does to the process image. -/
def writeImage? (c : Channel) (regs : Registrations) (pins : PinTable) (image : Bytes) :
    Option Bytes :=
  (c.control :: c.outputs.map (·.2)).foldlM (writeMapped? regs pins) image

/-- The output half of a cycle. -/
def write? (c : Channel) (regs : Registrations) (pins : PinTable) (m : μ) :
    OptionT Logged (Channel × μ) := do
  let m ← OptionT.mk (pure (Master.mapImage? (c.writeImage? regs pins) m))
  let (services, m) ← OptionT.lift (serve pins c.services m)
  pure ({ c with services }, m)

end Axis.Channel

namespace PackedBits

def readBit? (o : Offset) (image : Bytes) (pins : PinTable) (bit : Nat × PinRef) :
    Option PinTable := do
  let place ← o.shift? bit.1
  let on ← ServoBus.readBit? place image
  some (pins.put bit.2 (.bit on))

/-- Sets the pins of the bits. -/
def read? (regs : Registrations) (image : Bytes) (pins : PinTable) (p : PackedBits) :
    Option PinTable :=
  match regs.offset? p.entry with
  | some o => p.bits.foldlM (readBit? o image) pins
  | none => some pins

def writeBit? (o : Offset) (pins : PinTable) (image : Bytes) (bit : Nat × PinRef) :
    Option Bytes := do
  let place ← o.shift? bit.1
  ServoBus.writeBit? place (pins.raw bit.2 != 0) image

/-- Sets the bits from their pins. -/
def write? (regs : Registrations) (pins : PinTable) (image : Bytes) (p : PackedBits) :
    Option Bytes :=
  match regs.offset? p.entry with
  | some o => p.bits.foldlM (writeBit? o pins) image
  | none => some image

end PackedBits

namespace Rig

variable {μ : Type} [Master μ]

/-- The input half of a cycle. -/
def read? (r : Rig) (regs : Registrations) (image : Bytes) (pins : PinTable) :
    Option PinTable := do
  let pins ← r.channels.foldlM (fun pins c => c.read? regs image pins) pins
  r.inputs.foldlM (PackedBits.read? regs image) pins

def writeChannels? (regs : Registrations) (pins : PinTable) :
    List Axis.Channel → μ → OptionT Logged (List Axis.Channel × μ)
  | [], m => pure ([], m)
  | c :: rest, m => do
    let (c, m) ← c.write? regs pins m
    let (rest, m) ← writeChannels? regs pins rest m
    pure (c :: rest, m)

/-- The output half of a cycle. -/
def write? (r : Rig) (regs : Registrations) (pins : PinTable) (m : μ) :
    OptionT Logged (Rig × μ) := do
  let (channels, m) ← writeChannels? regs pins r.channels m
  let bits (image : Bytes) : Option Bytes := r.outputs.foldlM (PackedBits.write? regs pins) image
  let m ← OptionT.mk (pure (Master.mapImage? bits m))
  pure ({ r with channels }, m)

end Rig

end ServoBus
