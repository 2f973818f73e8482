import ServoBus.Axis.Param
import ServoBus.Device.Rig
import ServoBus.Device.Type

/-!
# Generic drives

A drive of any maker can be used if its configuration gives its identity and the
shape of its PDOs. The type itself has no identity: a slave that does not set one is
refused before anything is sent to it.
-/

namespace ServoBus.Generic

/-- Stands for an identity that was not set. -/
def noIdentity : UInt32 := 0xffffffff

/-- The parameters of the drive as a whole. -/
inductive DriveParam where
  | channels
  | outputLimit
  | inputLimit
  | increment
  | autoflow
  | pdoLimit
  | pdoEntryLimit
deriving DecidableEq, Repr

/-- The parameter of a number. -/
def DriveParam.ofId? (id : UInt32) : Option DriveParam :=
  [channels, outputLimit, inputLimit, increment, autoflow, pdoLimit, pdoEntryLimit][id.toNat]?

def driveDeclarations : List Param.Declaration :=
  [⟨"ciaChannels", 0, .u32, some "1", some "Number of axes"⟩,
   ⟨"ciaRxPDOEntryLimit", 1, .u32, some "8", some "Most objects mapped into one axis' RxPDOs"⟩,
   ⟨"ciaTxPDOEntryLimit", 2, .u32, some "8", some "Most objects mapped into one axis' TxPDOs"⟩,
   ⟨"pdoIncrement", 3, .u32, some "1", none⟩,
   ⟨"pdoAutoflow", 4, .bit, some "false", none⟩,
   ⟨"pdoLimit", 5, .u32, none, none⟩,
   ⟨"pdoEntryLimit", 6, .u32, none, none⟩]

def type : Except Fault DeviceType := do
  let declarations ← Axis.declarations driveDeclarations [] Param.maxChannels
  pure
    { name := "basic_cia402"
      vendor := noIdentity
      product := noIdentity
      entryLimit := 32
      axes := 1
      digitalInputs := 0
      digitalOutputs := 0
      declarations
      manual := []
      family := .generic }

/-- The options that the parameters start from: one velocity-controlled axis. -/
def initialOptions : Axis.Options :=
  { channels := 1
    outputLimit := 8
    inputLimit := 8 : Axis.Options }.mapChannels fun c =>
      { c with requested := c.requested.insert .pv }

section Setup

variable {μ : Type} [Master μ]

/-- Applies a parameter of the drive as a whole. -/
def applyDrive (site : Site) (o : Axis.Options) (p : Param.Setting) (q : DriveParam) :
    Checked Axis.Options :=
  let number := p.value.asU32.toNat
  match q with
  | .channels => pure { o with channels := number }
  | .outputLimit => pure { o with outputLimit := number }
  | .inputLimit => pure { o with inputLimit := number }
  | .increment =>
    if number < 0x10000 then pure { o with increment := UInt16.ofNat number }
    else Checked.reject s!"invalid value for modparam {p.name} of slave {site.device}"
      (.invalidParam p.name p.value.text)
  | .autoflow => pure { o with autoflow := p.value.asBool }
  | .pdoLimit => pure { o with pdoLimit := number }
  | .pdoEntryLimit => pure { o with pdoEntryLimit := number }

def apply (site : Site) (o : Axis.Options) (p : Param.Setting) : Setup μ Axis.Options :=
  match DriveParam.ofId? p.id with
  | some q => Action.ofChecked (applyDrive site o p q)
  | none => do
    match ← Axis.applySetting? site o p with
    | some o => pure o
    | none =>
      Action.ofChecked (Checked.reject s!"unknown modparam {p.name} for slave {site.device}"
        (.unknownParam site.device p.name))

def setUp (site : Site) (settings : List Param.Setting) : Setup μ Rig := do
  if site.identity.vendor = noIdentity ∨ site.identity.product = noIdentity then
    Logged.error <|
      s!"basic_cia402 slave {site.device} not configured correctly, " ++
        "vendor ID and product code must be set"
    throw (.misconfigured site.device .noIdentity)
  let o ← settings.foldlM (apply site) initialOptions
  let channels ← Axis.configure site o.numberLabels
  pure { channels }

end Setup

end ServoBus.Generic
