import ServoBus.Axis.Options
import ServoBus.Sync.Builder

/-!
# Layout of axes

A drive starts with two sync managers for its mailbox, which hold nothing here. The
third one carries the control word and all output objects of every channel, the fourth
one the status word and all input objects.

The PDOs of a direction have a range of 512 indices. Those of a channel start at a
fixed distance from those of the channel before. Its objects fill one PDO after
another if they may flow on; otherwise they have to find place in a single one. No
PDO may belong to two channels.

Places in the range of PDOs are natural numbers here and become words when a PDO is
added, so nothing can wrap around on the way.
-/

namespace ServoBus.Axis

/-- The index of the first object of a channel. -/
def base (channel : Nat) : UInt16 := 0x6000 + 0x800 * UInt16.ofNat channel

/-- One direction of the exchange. -/
structure Side where
  direction : Sync.Direction
  transfer : Transfer
  firstPdo : Nat
  /-- The offset of the control word or status word. -/
  word : UInt16
deriving DecidableEq, Repr

namespace Side

def output : Side := ⟨.output, .output, 0x1600, 0x40⟩

def input : Side := ⟨.input, .input, 0x1a00, 0x41⟩

def lastPdo (s : Side) : Nat := s.firstPdo + 0x1ff

/-- How many objects of a channel are taken in this direction. -/
def limit (s : Side) (o : Options) : Nat :=
  match s.direction with
  | .output => o.outputLimit
  | _ => o.inputLimit

/-- What a channel maps in this direction. -/
def entries (s : Side) (channel : Nat) (enabled : FeatureSet) : List Sync.Entry :=
  ⟨⟨base channel + s.word, 0⟩, 16⟩ ::
    (enabled.objects s.transfer).map fun (_, o) =>
      ⟨⟨o.index (base channel), o.subindex⟩, o.format.width⟩

end Side

namespace Layout

open Sync (Builder)

/-- Refuses options for the slave whose sync managers are built. -/
def refuse {α : Type} (reason : Reason) : Action Builder α := do
  Action.ofChecked (misconfigured (← get).device reason)

/-- The first PDO of a channel. -/
def firstPdo (o : Options) (s : Side) (channel : Nat) : Action Builder Nat :=
  let offset := channel * o.increment.toNat
  if offset ≤ 0x1ff then pure (s.firstPdo + offset)
  else refuse (.incrementTooLarge o.increment.toNat (channel + 1) s.firstPdo s.lastPdo)

/-- Adds a PDO unless a channel has it already. -/
def addPdo (pdo : Nat) : Action Builder Unit := do
  let b ← get
  if (b.pdoIndices.any fun i => i.toNat == pdo) then refuse (.sharedPdo pdo)
  else Builder.addPdo (UInt16.ofNat pdo)

/-- Where the objects of a channel have got to: the PDO at hand, the number of PDOs
in use, and how many entries the one at hand holds. -/
structure Cursor where
  pdo : Nat
  pdos : Nat
  filled : Nat
deriving DecidableEq, Repr

/-- Goes on to the next PDO behind a full one. -/
def flowOn (o : Options) (s : Side) (first : Nat) (c : Cursor) : Action Builder Cursor :=
  if !o.autoflow then refuse (.fullPdo c.pdo o.pdoEntryLimit)
  else if c.pdos = o.pdoLimit ∨ c.pdo = s.lastPdo then refuse (.tooManyPdos c.pdos first)
  else do
    addPdo (c.pdo + 1)
    pure ⟨c.pdo + 1, c.pdos + 1, 0⟩

def addEntries (o : Options) (s : Side) (first : Nat) :
    Cursor → List Sync.Entry → Action Builder Unit
  | _, [] => pure ()
  | c, e :: es => do
    let c ← if c.filled = o.pdoEntryLimit then flowOn o s first c else pure c
    Builder.addEntry e
    addEntries o s first { c with filled := c.filled + 1 } es

/-- Adds what one channel exchanges in one direction. -/
def addChannel (o : Options) (s : Side) (channel : Nat) (enabled : FeatureSet) :
    Action Builder Unit := do
  let es := s.entries channel enabled
  let first ← firstPdo o s channel
  if s.limit o < es.length then refuse (.tooManyEntries first es.length (s.limit o))
  addPdo first
  addEntries o s first ⟨first, 1, 0⟩ es

/-- The sync managers of the mailbox. -/
def addMailbox : Action Builder Unit := do
  Builder.addManager .output .default
  Builder.addManager .input .default

/-- The sync manager of one direction, with all channels. -/
def addSide (o : Options) (s : Side) : Action Builder Unit := do
  Builder.addManager s.direction .default
  o.active.zipIdx.forM fun (c, channel) => addChannel o s channel c.requested.resolve

def build (o : Options) : Action Builder Unit := do
  addMailbox
  addSide o .output
  addSide o .input

end Layout

end ServoBus.Axis
