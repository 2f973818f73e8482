import ServoBus.Axis.Layout
import ServoBus.Brittle
import ServoBus.Count
import ServoBus.Feature.Bitmap
import ServoBus.Sync.Storage

/-!
# Layout in machine words

A layout with the numbers that a machine has. Indices of objects and of PDOs are words of 16 bits,
and what is counted has a word of the size of an address. Nothing wraps around: a number that does
not fit breaks the layout, and so does a channel without options or a feature without a row in the
table. The nodes are added to the flat storage of sync managers, which counts them in words, too.

No check of the options comes first. Any number of channels, any distance between their PDOs and
any limits, zero included, are laid out as far as they can be.
-/

namespace ServoBus.Axis.Words

open Sync (Storage Entry Span)

/-- A number as an index, if it fits. -/
def index? (n : Nat) : Option UInt16 := if n < UInt16.size then some (UInt16.ofNat n) else none

/-- The index of the first object of a channel. Only the low bits of the channel are used. -/
def base? (channel : Nat) : Option UInt16 := do
  let distance ← index? (0x800 * (UInt16.ofNat channel).toNat)
  index? (0x6000 + distance.toNat)

def mapObject? (base : UInt16) (o : DriveObject) : Option Entry :=
  (index? (base.toNat + o.offset.toNat)).map fun index => ⟨⟨index, o.subindex⟩, o.format.width⟩

/-- What a channel maps in one direction. -/
def entries? (s : Side) (channel : Nat) (enabled : FeatureSet) : Option (List Entry) := do
  let base ← base? channel
  let word ← index? (base.toNat + s.word.toNat)
  let objects ← (Bitmap.ofSet enabled).objects? s.transfer
  let mapped ← objects.mapM fun (_, o) => mapObject? base o
  some (⟨⟨word, 0⟩, 16⟩ :: mapped)

/-- The channels in use. -/
def active? (o : Options) : Option (List ChannelOptions) :=
  Span.cut? ⟨0, min o.channels Param.maxChannels⟩ o.channel.toList

/-- What the sync managers count. -/
def pdoCounts (t : Storage) : List Nat := t.managers.map (·.pdos.count)

/-- What the PDOs count. -/
def entryCounts (t : Storage) : List Nat := t.pdos.map (·.entries.count)

/-- Adds a node, which is counted in a word where it belongs. -/
def counting (counts : Storage → List Nat) (x : Action Storage Unit) : Brittle Storage Unit := do
  Brittle.ofAction x
  Brittle.need (if ∀ n ∈ counts (← get), n < USize.size then some () else none)

/-- Refuses options for the slave whose sync managers are built. -/
def refuse {α : Type} (reason : Reason) : Brittle Storage α := do
  Brittle.ofAction (Action.ofChecked (misconfigured (← get).device reason))

/-- The last PDO of a range. -/
def lastPdo? (s : Side) : Option UInt16 := index? (s.firstPdo + 0x1ff)

/-- The first PDO of a channel. A distance that does not fit is as bad as one outside the range. -/
def firstPdo (o : Options) (s : Side) (channel : Nat) : Brittle Storage UInt16 :=
  let offset? := (index? channel).bind fun c => index? (c.toNat * o.increment.toNat)
  match offset?.filter fun offset => decide (offset.toNat ≤ 0x1ff) with
  | some offset => Brittle.need (index? (s.firstPdo + offset.toNat))
  | none => do
    let number ← Brittle.need (count? (channel + 1))
    let last ← Brittle.need (lastPdo? s)
    refuse (.incrementTooLarge o.increment.toNat number.toNat s.firstPdo last.toNat)

/-- Adds a PDO unless a channel has it already. -/
def addPdo (pdo : UInt16) : Brittle Storage Unit := do
  if (← get).pdos.any (·.index == pdo) then refuse (.sharedPdo pdo.toNat)
  else counting pdoCounts (Storage.addPdo pdo)

structure Cursor where
  pdo : UInt16
  pdos : USize
  filled : USize

/-- Goes on to the next PDO behind a full one. -/
def flowOn (o : Options) (last first : UInt16) (c : Cursor) : Brittle Storage Cursor :=
  if !o.autoflow then refuse (.fullPdo c.pdo.toNat o.pdoEntryLimit)
  else if c.pdos.toNat = o.pdoLimit ∨ c.pdo = last then
    refuse (.tooManyPdos c.pdos.toNat first.toNat)
  else do
    let pdo ← Brittle.need (index? (c.pdo.toNat + 1))
    let pdos ← Brittle.need (count? (c.pdos.toNat + 1))
    addPdo pdo
    pure ⟨pdo, pdos, 0⟩

def addEntries (o : Options) (last first : UInt16) : Cursor → List Entry → Brittle Storage Unit
  | _, [] => pure ()
  | c, e :: es => do
    let c ← if c.filled.toNat = o.pdoEntryLimit then flowOn o last first c else pure c
    counting entryCounts (Storage.addEntry e)
    let filled ← Brittle.need (count? (c.filled.toNat + 1))
    addEntries o last first { c with filled } es

/-- Adds what one channel exchanges in one direction. -/
def addChannel (o : Options) (s : Side) (channel : Nat) (enabled : FeatureSet) :
    Brittle Storage Unit := do
  let es ← Brittle.need (entries? s channel enabled)
  let first ← firstPdo o s channel
  if s.limit o < es.length then refuse (.tooManyEntries first.toNat es.length (s.limit o))
  let last ← Brittle.need (lastPdo? s)
  addPdo first
  addEntries o last first ⟨first, 1, 0⟩ es

/-- The sync manager of one direction, with all channels. -/
def addSide (o : Options) (s : Side) : Brittle Storage Unit := do
  Brittle.ofAction (Storage.addManager s.direction .default)
  let channels ← Brittle.need (active? o)
  channels.zipIdx.forM fun (c, channel) => addChannel o s channel c.requested.resolve

end ServoBus.Axis.Words
