import ServoBus.Slave

/-!
# Stations

A station is a slave as it is kept in memory. Its driver is made once, together with the slave,
and it is there as long as the slave is: an activation fits the driver out anew, one that fails
leaves in it what was done until then, and a slave that is not active has a driver all the same.

The slave that a station stands for shows the driver only while it is active
(`Station.slave`).
-/

namespace ServoBus

structure Station where
  site : Site
  type : DeviceType
  settings : List Param.Setting
  syncs : Sync.Builder
  regs : Registrations
  pins : PinTable
  driver : Rig
  state : SlaveState
  active : Bool
deriving DecidableEq, Repr

namespace Station

/-- The driver of a new station. -/
def idleDriver : Rig := { channels := [] }

def create (master : String) (c : SlaveConfig) (t : DeviceType) : Checked Station := do
  let s ← Slave.create master c t
  pure ⟨s.site, s.type, s.settings, s.syncs, s.regs, s.pins, idleDriver, s.state, false⟩

/-- The slave that the station stands for. -/
def slave (s : Station) : Slave :=
  ⟨s.site, s.type, s.settings, s.syncs, s.regs, s.pins, if s.active then some s.driver else none,
    s.state⟩

def device (s : Station) : String := s.site.device

def isOperational (s : Station) : Bool := s.active && s.state.operational

/-- The station without anything that setting it up made, apart from its driver. -/
def cleared (s : Station) : Station :=
  { s with syncs := s.syncs.cleared, regs := s.regs.cleared, pins := {} }

/-- A setup that has a driver at hand. -/
abbrev Fitting (μ α : Type) := Action (Rig × Workspace μ) α

section Fitting

variable {μ α : Type}

/-- A setup that leaves the driver alone. -/
def aside (x : Setup μ α) : Fitting μ α := Action.zoom (·.2) (fun w x => (x.1, w)) x

/-- A change of the driver alone. -/
def onDriver (f : Rig → Rig) : Fitting μ Unit := modify fun x => (f x.1, x.2)

variable [Master μ]

/-- Generic drives get new channels. -/
def fitGeneric (site : Site) (settings : List Param.Setting) : Fitting μ Unit := do
  let rig ← aside (Generic.setUp site settings)
  onDriver ({ · with channels := rig.channels })

/-- Puts the lines of every channel behind those that the driver has. -/
def fitLines (site : Site) : List (Axis.Channel × Axis.ChannelOptions) → Fitting μ Unit
  | [] => pure ()
  | (c, o) :: rest => do
    let inputs ← aside <| Stepper.addPacked site o.label .output
      (Stepper.namedInputs ++ Stepper.numberedInputs o.digitalInputs) (c.entry? .digitalInput)
    onDriver fun d => { d with inputs := d.inputs ++ inputs }
    let outputs ← aside <| Stepper.addPacked site o.label .input
      (Stepper.numberedOutputs o.digitalOutputs) (c.entry? .digitalOutput)
    onDriver fun d => { d with outputs := d.outputs ++ outputs }
    fitLines site rest

/-- Stepper drives get new channels, and their lines are taken away before new ones come. -/
def fitStepper (t : DeviceType) (site : Site) (settings : List Param.Setting) :
    Fitting μ Unit := do
  let o ← aside <| settings.foldlM (Stepper.apply site)
    (Stepper.initialOptions t.axes t.digitalInputs t.digitalOutputs)
  let o := o.numberLabels
  let channels ← aside (Axis.configure site o)
  onDriver ({ · with channels })
  onDriver ({ · with inputs := [], outputs := [] })
  fitLines site (channels.zip o.active)

def fit (t : DeviceType) (site : Site) (settings : List Param.Setting) : Fitting μ Unit :=
  match t.family with
  | .generic => fitGeneric site settings
  | .stepper => fitStepper t site settings

end Fitting

section Master

variable {μ : Type} [Master μ]

/-- Has the master configure the slave and place its entries. -/
def commit (s : Station) : Setup μ Unit := do
  let managers ← Action.ofChecked (← get).syncs.finish
  Logged.debug s!"slave {s.device}: {managers.length - 1} sync managers"
  Setup.onMaster (Master.configureSlave s.site.position s.site.identity managers)
  Setup.locate

def setUp (s : Station) : Fitting μ Unit := do
  fit s.type s.site s.settings
  aside s.commit

/-- Activates the station. Its driver is kept even after a failure. -/
def activate (s : Station) (m : μ) : Logged (Except Fault Unit × Station × μ) := do
  let empty := s.cleared
  let (result, driver, w) ← s.setUp.exec (s.driver, ⟨m, empty.syncs, empty.regs, empty.pins⟩)
  match result with
  | .ok () =>
    Logged.info <|
      s!"slave {s.device} ({s.type.name}) configured, " ++
        s!"{w.regs.size} PDO entries, {w.pins.size} pins"
    let s := { s with syncs := w.syncs, regs := w.regs, pins := w.pins, driver, active := true }
    pure (.ok (), s, w.master)
  | .error e =>
    Logged.error s!"slave {s.device} ({s.type.name}) disabled: {e.message}"
    pure (.error e, { empty with driver, active := false }, w.master)

/-- Asks for the state of the station. -/
def updateState (s : Station) (m : μ) : Station × μ :=
  match Master.slaveState s.site.position m with
  | (.ok state, m) => ({ s with state }, m)
  | (.error _, m) => ({ s with state := .unknown }, m)

/-- The input half of a cycle. -/
def read (s : Station) (image : Bytes) : Station :=
  if s.isOperational then { s with pins := s.driver.read s.regs image s.pins } else s

/-- The output half of a cycle. -/
def write (s : Station) (m : μ) : Logged (Station × μ) :=
  if s.isOperational then do
    let (driver, m) ← s.driver.write s.regs s.pins m
    pure ({ s with driver }, m)
  else pure (s, m)

end Master

end Station

end ServoBus
