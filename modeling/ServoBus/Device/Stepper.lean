import ServoBus.Axis.Param
import ServoBus.Device.Rig
import ServoBus.Device.Type

/-!
# Stepper drives

The drives of this family have one or two axes. They are moved by setting a position
in every cycle, and their digital lines are mapped as the bits of one object for each
direction. These objects are packed: every line has a pin of its own. Some input lines
have a fixed meaning and a name, the others are numbered.

Drives with an encoder can be run with or without it.
-/

namespace ServoBus.Stepper

/-- A parameter of an axis that only these drives have. The peak current is sent in
steps of 100 mA or of 1 mA. -/
inductive AxisParam where
  | peakCurrentCoarse
  | peakCurrentFine
  | controlMode
deriving DecidableEq, Repr

def AxisParam.id : AxisParam → UInt32
  | peakCurrentCoarse => 0x100
  | peakCurrentFine => 0x110
  | controlMode => 0x120

/-- The parameter of a number without channel. -/
def AxisParam.ofId? (id : UInt32) : Option AxisParam :=
  [peakCurrentCoarse, peakCurrentFine, controlMode].find? (·.id == id)

def openLoopDeclarations : List Param.Declaration :=
  [⟨"peakCurrent_amps", AxisParam.peakCurrentFine.id, .float, some "5.6",
    some "Peak motor current, in Amps"⟩]

def closedLoopDeclarations : List Param.Declaration :=
  [⟨"peakCurrent_amps", AxisParam.peakCurrentCoarse.id, .float, some "6.0",
    some "Peak motor current, in Amps"⟩,
   ⟨"controlMode", AxisParam.controlMode.id, .string, some "closedloop",
    some "Operation mode: openloop or closedloop"⟩]

def manual : List Param.ManualEntry :=
  [⟨"feedRatio", "10000", "Microsteps per rotation"⟩,
   ⟨"encoderRatio", "4000", "Encoder steps per rotation"⟩]

/-- What tells the drives of the family apart. -/
structure Model where
  name : String
  product : UInt32
  axes : Nat
  digitalInputs : Nat
  digitalOutputs : Nat
  closedLoop : Bool
deriving DecidableEq, Repr

def models : List Model :=
  [⟨"EM3E-522E", 0x8800, 1, 6, 2, false⟩,
   ⟨"EM3E-556E", 0x8600, 1, 6, 2, false⟩,
   ⟨"EM3E-870E", 0x8700, 1, 6, 2, false⟩,
   ⟨"CS3E-D503", 0x1300, 1, 7, 7, true⟩,
   ⟨"CS3E-D507", 0x1100, 1, 7, 7, true⟩,
   ⟨"CS3E-D1008", 0x1200, 1, 7, 7, true⟩,
   ⟨"CS3E-D503E", 0x0700, 1, 6, 2, true⟩,
   ⟨"CS3E-D507E", 0x0500, 1, 6, 2, true⟩,
   ⟨"2EM3E-D522", 0xa300, 2, 4, 2, false⟩,
   ⟨"2EM3E-D556", 0xa100, 2, 4, 2, false⟩,
   ⟨"2EM3E-D870", 0xa200, 2, 4, 2, false⟩,
   ⟨"2CS3E-D503", 0x2200, 2, 4, 2, true⟩,
   ⟨"2CS3E-D507", 0x2100, 2, 4, 2, true⟩]

def Model.type (m : Model) : Except Fault DeviceType := do
  let perChannel := if m.closedLoop then closedLoopDeclarations else openLoopDeclarations
  let declarations ← Axis.declarations [] perChannel m.axes
  pure
    { name := m.name
      vendor := 0x4321
      product := m.product
      entryLimit := 32
      axes := m.axes
      digitalInputs := m.digitalInputs
      digitalOutputs := m.digitalOutputs
      declarations
      manual
      family := .stepper }

def types : Except Fault (List DeviceType) := models.mapM Model.type

/-- The input lines with a meaning, and their bits. -/
def namedInputs : List (String × Nat) :=
  [("din-negative-limit", 0), ("din-positive-limit", 1), ("din-home", 2), ("din-probe1", 26),
   ("din-probe2", 27), ("din-index-z", 31), ("din-quick-stop", 23)]

/-- The numbered input lines, which start at bit 4. -/
def numberedInputs (count : Nat) : List (String × Nat) :=
  (List.range count).map fun n => (s!"din-{n + 1}", 4 + n)

/-- The output lines, which start at bit 16. -/
def numberedOutputs (count : Nat) : List (String × Nat) :=
  (List.range count).map fun n => (s!"dout-{n + 1}", 16 + n)

def controlModes : List (String × UInt16) := [("openloop", 0), ("closedloop", 2)]

def initialOptions (axes digitalInputs digitalOutputs : Nat) : Axis.Options :=
  { channels := axes
    outputLimit := 8
    inputLimit := 8 : Axis.Options }.mapChannels fun c =>
      { c with
        requested := c.requested.insertMany [.csp, .digitalOutput, .digitalInput]
        packed := c.packed.insertMany [.digitalOutput, .digitalInput]
        digitalInputs
        digitalOutputs }

section Setup

variable {μ : Type} [Master μ]

/-- The number of steps nearest to a current, with `scale` steps for one ampere. -/
def steps (scale amperes : Float) : UInt16 := (amperes * scale + 0.5).toUInt16

/-- Sends a parameter that only these drives have. -/
def applyAxis (site : Site) (p : Param.Setting) (q : AxisParam) : Setup μ Unit := do
  let base : UInt16 := 0x2000 + 0x800 * UInt16.ofNat (Param.channelOf p.id)
  let send (index value : UInt16) : Setup μ Unit :=
    Setup.writeParam site ⟨index, 0⟩ (payload 16 value.toNat) p.name
  match q with
  | .peakCurrentCoarse => send base (steps 10 p.value.asFloat)
  | .peakCurrentFine => send base (steps 1000 p.value.asFloat)
  | .controlMode =>
    match Text.lookupCaseless controlModes p.value.asString with
    | some mode => send (base + 0x24) mode
    | none =>
      Action.ofChecked (Checked.reject
        s!"invalid value for modparam {p.name} of slave {site.device}"
        (.invalidParam p.name p.value.text))

def apply (site : Site) (o : Axis.Options) (p : Param.Setting) : Setup μ Axis.Options := do
  match AxisParam.ofId? (Param.commonOf p.id) with
  | some q =>
    applyAxis site p q
    pure o
  | none =>
    match ← Axis.applySetting? site o p with
    | some o => pure o
    | none =>
      Action.ofChecked (Checked.reject s!"unknown modparam {p.name} for slave {site.device}"
        (.unknownParam site.device p.name))

/-- Adds a pin for every line. -/
def addLines (site : Site) (label : String) (direction : Pin.Direction) :
    List (String × Nat) → Setup μ (List (Nat × PinRef))
  | [] => pure []
  | (name, bit) :: rest => do
    let pin ← Setup.addPin site (some label) name .bit direction
    let others ← addLines site label direction rest
    pure ((bit, pin) :: others)

/-- Adds the pins of the lines of one direction, if the object that holds them is
mapped. -/
def addPacked (site : Site) (label : String) (direction : Pin.Direction)
    (lines : List (String × Nat)) : Option RegRef → Setup μ (List PackedBits)
  | none => pure []
  | some entry => do
    let bits ← addLines site label direction lines
    pure [⟨entry, bits⟩]

/-- Adds the pins of the lines of every channel, inputs before outputs. -/
def addChannelLines (site : Site) (rig : Rig) :
    List (Axis.Channel × Axis.ChannelOptions) → Setup μ Rig
  | [] => pure rig
  | (c, o) :: rest => do
    let inputs ← addPacked site o.label .output (namedInputs ++ numberedInputs o.digitalInputs) <|
      c.entry? .digitalInput
    let outputs ← addPacked site o.label .input (numberedOutputs o.digitalOutputs) <|
      c.entry? .digitalOutput
    let rig := { rig with inputs := rig.inputs ++ inputs, outputs := rig.outputs ++ outputs }
    addChannelLines site rig rest

def setUp (t : DeviceType) (site : Site) (settings : List Param.Setting) : Setup μ Rig := do
  let o ← settings.foldlM (apply site)
    (initialOptions t.axes t.digitalInputs t.digitalOutputs)
  let o := o.numberLabels
  let channels ← Axis.configure site o
  addChannelLines site { channels } (channels.zip o.active)

end Setup

end ServoBus.Stepper
