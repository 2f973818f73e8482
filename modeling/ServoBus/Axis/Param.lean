import ServoBus.Axis.Options
import ServoBus.Axis.Layout
import ServoBus.Ratio.Basic
import ServoBus.Setup

/-!
# Parameters of axes

Every axis of a drive has the same parameters. Most of them are sent to one object
each during setup; a ratio goes to two objects, its numerator first. For every feature
there is a parameter that asks for it or refuses it, which only changes the options.

A parameter with a number below `0x1000` is a matter of the device.
-/

namespace ServoBus.Axis

/-- A parameter that is sent to an object of its channel, in so many bytes. -/
structure ObjectParam where
  name : String
  id : UInt32
  kind : Param.Kind
  offset : UInt16
  subindex : UInt8
  length : Nat
deriving DecidableEq, Repr

/-- A parameter whose numerator and denominator are sent to the subindices 1 and 2 of
an object of its channel. -/
structure RatioParam where
  name : String
  id : UInt32
  offset : UInt16
deriving DecidableEq, Repr

def objectParams : List ObjectParam :=
  [⟨"positionLimitMin", 0x1000, .s32, 0x7b, 1, 4⟩,
   ⟨"positionLimitMax", 0x1008, .s32, 0x7b, 2, 4⟩,
   ⟨"swPositionLimitMin", 0x1010, .s32, 0x7d, 1, 4⟩,
   ⟨"swPositionLimitMax", 0x1018, .s32, 0x7d, 2, 4⟩,
   ⟨"homeOffset", 0x1020, .s32, 0x7c, 0, 4⟩,
   ⟨"profileMaxVelocity", 0x1028, .u32, 0x7f, 0, 4⟩,
   ⟨"motorMaxSpeed_RPM", 0x1030, .u32, 0x80, 0, 4⟩,
   ⟨"profileVelocity", 0x1038, .u32, 0x81, 0, 4⟩,
   ⟨"profileEndVelocity", 0x1040, .u32, 0x82, 0, 4⟩,
   ⟨"profileAccel", 0x1048, .u32, 0x83, 0, 4⟩,
   ⟨"profileDecel", 0x1050, .u32, 0x84, 0, 4⟩,
   ⟨"quickDecel", 0x1058, .u32, 0x85, 0, 4⟩,
   ⟨"quickStopOptionCode", 0x1060, .s32, 0x5a, 0, 2⟩,
   ⟨"shutdownOptionCode", 0x1068, .s32, 0x5b, 0, 2⟩,
   ⟨"disableOptionCode", 0x1070, .s32, 0x5c, 0, 2⟩,
   ⟨"haltOptionCode", 0x1078, .s32, 0x5d, 0, 2⟩,
   ⟨"faultOptionCode", 0x1080, .s32, 0x5e, 0, 2⟩,
   ⟨"homeMethod", 0x1088, .s32, 0x98, 0, 1⟩,
   ⟨"homeVelocityFast", 0x1090, .u32, 0x99, 1, 4⟩,
   ⟨"homeVelocitySlow", 0x1098, .u32, 0x99, 2, 4⟩,
   ⟨"homeAccel", 0x10a0, .u32, 0x9a, 0, 4⟩,
   ⟨"probeFunction", 0x10a8, .u32, 0xb8, 0, 2⟩,
   ⟨"probe1Positive", 0x10b0, .s32, 0xba, 0, 4⟩,
   ⟨"probe1Negative", 0x10b8, .s32, 0xbb, 0, 4⟩,
   ⟨"probe2Positive", 0x10c0, .s32, 0xbc, 0, 4⟩,
   ⟨"probe2Negative", 0x10c8, .s32, 0xbd, 0, 4⟩]

def ratioParams : List RatioParam :=
  [⟨"encoderRatio", 0x10d0, 0x8f⟩, ⟨"gearRatio", 0x10d8, 0x91⟩, ⟨"feedRatio", 0x10e0, 0x92⟩]

/-- The lowest number of a parameter of axes. -/
def firstParam : UInt32 := 0x1000

/-- The number of the parameter for the first feature. -/
def firstEnable : UInt32 := 0x4000

/-- The number of the parameter for a feature. -/
def enableParam (f : Feature) : UInt32 := firstEnable + 8 * UInt32.ofNat f.index

/-- The feature that a parameter number stands for. -/
def enabledBy? (id : UInt32) : Option Feature :=
  Feature.all[(id.toNat - firstEnable.toNat) / 8]?

/-- The declarations of the parameters of one axis, without channels. -/
def axisDeclarations : List Param.Declaration :=
  objectParams.map (fun p => { name := p.name, id := p.id, kind := p.kind }) ++
    ratioParams.map (fun p => { name := p.name, id := p.id, kind := .string }) ++
    Feature.all.map (fun f => { name := f.configName, id := enableParam f, kind := .bit })

/-- The parameters of a drive: those of the device, and for each of its channels
further ones and those of an axis. -/
def declarations (device perChannel : List Param.Declaration) (channels : Nat) :
    Except Fault (List Param.Declaration) :=
  (device ++ ·) <$> Param.perChannel (perChannel ++ axisDeclarations) channels

section Apply

variable {μ : Type} [Master μ]

/-- The whole number that is sent for a value. -/
def ObjectParam.number (q : ObjectParam) (v : Param.Value) : Int :=
  match q.kind with
  | .s32 => v.asS32.toInt
  | _ => v.asU32.toNat

/-- Sends a parameter to its object and notes it in the options. -/
def applyObject (site : Site) (o : Options) (p : Param.Setting) (q : ObjectParam) :
    Setup μ Options := do
  let channel := Param.channelOf p.id
  let value := q.number p.value
  Setup.writeParam site ⟨base channel + q.offset, q.subindex⟩ (payload (8 * q.length) value) p.name
  pure (o.modifyChannel channel (·.noteSent q.offset q.subindex value))

/-- Sends the two parts of a ratio. Neither may be zero. -/
def applyRatio (site : Site) (p : Param.Setting) (q : RatioParam) : Setup μ Unit := do
  let index := base (Param.channelOf p.id) + q.offset
  let decode : Setup μ Ratio :=
    Action.ofChecked (Ratio.decode p.value.asString Ratio.defaultBound)
  let r ← decode.noting fun e =>
    Logged.error s!"slave {site.device}: invalid ratio for modparam {p.name}: {e.message}"
  if r.hasZeroPart then
    Logged.error <|
      s!"slave {site.device}: ratio {Text.quote p.value.asString} of modparam {p.name} " ++
        "has a zero part"
    throw (.invalidRatio p.value.text)
  Setup.writeParam site ⟨index, 1⟩ (payload 32 r.numerator.toInt) p.name
  Setup.writeParam site ⟨index, 2⟩ (payload 32 r.denominator.toNat) p.name

/-- Applies a parameter of an axis and gives the options as they are then, or nothing
if it is no parameter of an axis. -/
def applySetting? (site : Site) (o : Options) (p : Param.Setting) : Setup μ (Option Options) := do
  let common := Param.commonOf p.id
  if p.id < firstParam then pure none
  else if firstEnable ≤ common then
    match enabledBy? common with
    | some f =>
      let assign (c : ChannelOptions) : ChannelOptions :=
        { c with requested := c.requested.assign f p.value.asBool }
      pure (some (o.modifyChannel (Param.channelOf p.id) assign))
    | none => throw (.unknownFeature p.name)
  else match objectParams.find? (·.id == common), ratioParams.find? (·.id == common) with
    | some q, _ => some <$> applyObject site o p q
    | none, some q =>
      applyRatio site p q
      pure (some o)
    | none, none => pure none

end Apply

end ServoBus.Axis
