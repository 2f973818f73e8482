import ServoBus.Axis.Channel

/-!
# Rigs

The rig of a slave is what drives it in a cycle: its channels, and the objects whose
bits have a pin each. The bits of an object are read one by one from the process image
behind the offset of its entry, and written in the same way; a bit that has no pin is
not touched.
-/

namespace ServoBus

/-- An object of which some bits have pins, by their number. -/
structure PackedBits where
  entry : RegRef
  bits : List (Nat × PinRef)
deriving DecidableEq, Repr

namespace PackedBits

def readBit (o : Offset) (image : Bytes) (pins : PinTable) (bit : Nat × PinRef) : PinTable :=
  pins.put bit.2 (.bit (ServoBus.readBit (o.shift bit.1) image))

/-- Sets the pins of the bits. -/
def read (regs : Registrations) (image : Bytes) (pins : PinTable) (p : PackedBits) : PinTable :=
  match regs.offset? p.entry with
  | some o => p.bits.foldl (readBit o image) pins
  | none => pins

def writeBit (o : Offset) (pins : PinTable) (image : Bytes) (bit : Nat × PinRef) : Bytes :=
  ServoBus.writeBit (o.shift bit.1) (pins.raw bit.2 != 0) image

/-- Sets the bits from their pins. -/
def write (regs : Registrations) (pins : PinTable) (image : Bytes) (p : PackedBits) : Bytes :=
  match regs.offset? p.entry with
  | some o => p.bits.foldl (writeBit o pins) image
  | none => image

@[simp] theorem length_writeBit (o : Offset) (pins : PinTable) (image : Bytes)
    (bit : Nat × PinRef) : (writeBit o pins image bit).length = image.length :=
  ServoBus.length_writeBit ..

@[simp] theorem length_write (regs : Registrations) (pins : PinTable) (image : Bytes)
    (p : PackedBits) : (p.write regs pins image).length = image.length := by
  unfold write
  split
  · next o _ =>
    induction p.bits generalizing image with
    | nil => rfl
    | cons bit bits ih => rw [List.foldl_cons, ih, length_writeBit]
  · rfl

end PackedBits

structure Rig where
  channels : List Axis.Channel
  inputs : List PackedBits := []
  outputs : List PackedBits := []
deriving DecidableEq, Repr

namespace Rig

variable {μ : Type} [Master μ]

/-- The input half of a cycle. -/
def read (r : Rig) (regs : Registrations) (image : Bytes) (pins : PinTable) : PinTable :=
  let pins := r.channels.foldl (fun pins c => c.read regs image pins) pins
  r.inputs.foldl (PackedBits.read regs image) pins

def writeChannels (regs : Registrations) (pins : PinTable) :
    List Axis.Channel → μ → Logged (List Axis.Channel × μ)
  | [], m => pure ([], m)
  | c :: rest, m => do
    let (c, m) ← c.write regs pins m
    let (rest, m) ← writeChannels regs pins rest m
    pure (c :: rest, m)

/-- The output half of a cycle. -/
def write (r : Rig) (regs : Registrations) (pins : PinTable) (m : μ) : Logged (Rig × μ) := do
  let (channels, m) ← writeChannels regs pins r.channels m
  let bits (image : Bytes) : Bytes := r.outputs.foldl (PackedBits.write regs pins) image
  pure ({ r with channels }, Master.mapImage bits m)

end Rig

end ServoBus
