import ServoBus.Checked
import ServoBus.Feature.Resolve
import ServoBus.Param.Channel

/-!
# Options of axes

A drive has up to eight channels, one for each axis. The options say for each channel
which objects it exchanges, and for the drive as a whole how the objects may be
distributed over PDOs. There are options for all eight channels, of which the first
few are in use, so a parameter for a channel that is not in use does no harm.
-/

namespace ServoBus.Axis

structure ChannelOptions where
  /-- The label of the pins of the channel. -/
  label : String := "srv"
  /-- The features that are asked for, without what they imply. -/
  requested : FeatureSet := ∅
  /-- The mapped objects whose bits are shown one by one. They have no pin of their
  own. -/
  packed : FeatureSet := ∅
  digitalInputs : Nat := 0
  digitalOutputs : Nat := 0
  /-- The values sent to objects during setup, the latest first. -/
  sent : List ((UInt16 × UInt8) × Int) := []
deriving DecidableEq, Repr

namespace ChannelOptions

/-- An axis whose operating mode can be chosen. -/
def standard : ChannelOptions := { requested := FeatureSet.ofList [.opmode] }

/-- Notes that a value was sent to an object of the channel. -/
def noteSent (c : ChannelOptions) (offset : UInt16) (subindex : UInt8) (value : Int) :
    ChannelOptions :=
  { c with sent := ((offset, subindex), value) :: c.sent }

/-- The value that was sent to an object last. -/
def sent? (c : ChannelOptions) (offset : UInt16) (subindex : UInt8) : Option Int :=
  c.sent.lookup (offset, subindex)

@[simp] theorem sent?_noteSent (c : ChannelOptions) (offset : UInt16) (subindex : UInt8)
    (value : Int) : (c.noteSent offset subindex value).sent? offset subindex = some value := by
  simp [sent?, noteSent]

end ChannelOptions

structure Options where
  channels : Nat
  /-- How many objects the PDOs of one channel take, by direction. -/
  outputLimit : Nat := 32
  inputLimit : Nat := 32
  /-- The distance between the first PDOs of neighbouring channels. -/
  increment : UInt16 := 1
  /-- Whether a channel goes on in a further PDO when one is full. -/
  autoflow : Bool := false
  pdoLimit : Nat := 8
  pdoEntryLimit : Nat := 32
  channel : Vector ChannelOptions Param.maxChannels := Vector.replicate _ .standard
deriving DecidableEq, Repr

/-- Reports why options cannot be used. -/
def misconfigured {α : Type} (device : String) (reason : Reason) : Checked α :=
  Checked.reject s!"slave {device}: {reason.message}" (.misconfigured device reason)

namespace Options

/-- The options of the channels in use. -/
def active (o : Options) : List ChannelOptions := o.channel.toList.take o.channels

theorem length_active (o : Options) : o.active.length = min o.channels Param.maxChannels := by
  simp [active]

def modifyChannel (o : Options) (ch : Fin Param.maxChannels)
    (f : ChannelOptions → ChannelOptions) : Options :=
  { o with channel := o.channel.set ch (f o.channel[ch]) }

/-- Changes the options of every channel, in use or not. -/
def mapChannels (o : Options) (f : ChannelOptions → ChannelOptions) : Options :=
  { o with channel := o.channel.map f }

/-- Tells the channels apart by their labels if there is more than one. -/
def numberLabels (o : Options) : Options :=
  if 1 < o.channels then
    { o with channel := o.channel.mapIdx fun n c =>
        if n < o.channels then { c with label := s!"srv-{n + 1}" } else c }
  else o

def validate (device : String) (o : Options) : Checked Unit :=
  if Param.maxChannels < o.channels then
    Checked.reject
      s!"slave {device}: {o.channels} channels requested, at most {Param.maxChannels}"
      (.tooManyChannels o.channels Param.maxChannels)
  else if o.channels = 0 then misconfigured device .noChannels
  else if o.pdoEntryLimit = 0 ∨ o.pdoLimit = 0 then misconfigured device .zeroLimit
  else pure ()

end Options

end ServoBus.Axis
