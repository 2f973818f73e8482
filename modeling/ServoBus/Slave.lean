import ServoBus.Device.Registry

/-!
# Slaves

A slave is inactive until it was set up and the master accepted its configuration. An
active slave has a rig; an inactive one has none, and whatever a failed attempt left
of sync managers, entries and pins is dropped, so that nothing of a half-configured
slave can be seen. Every attempt starts from nothing.

A cycle touches a slave only while it is active and was operational when its state was
asked for last.
-/

namespace ServoBus

/-- What a configuration says about a slave. -/
structure SlaveConfig where
  name : String
  position : Position
  typeName : String
  /-- What is given here takes the place of the identity of the device type. -/
  vendor? : Option UInt32 := none
  product? : Option UInt32 := none
  settings : List (String × String) := []
deriving DecidableEq, Repr

structure Slave where
  site : Site
  type : DeviceType
  settings : List Param.Setting
  syncs : Sync.Builder
  regs : Registrations
  pins : PinTable
  /-- What drives the slave while it is active. -/
  rig? : Option Rig
  state : SlaveState
deriving DecidableEq, Repr

namespace Slave

def name (s : Slave) : String := s.site.slave

def device (s : Slave) : String := s.site.device

def isActive (s : Slave) : Bool := s.rig?.isSome

def isOperational (s : Slave) : Bool := s.isActive && s.state.operational

/-- An inactive slave of a type, if its settings are valid. -/
def create (master : String) (c : SlaveConfig) (t : DeviceType) : Checked Slave := do
  let identity : Identity := ⟨c.vendor?.getD t.vendor, c.product?.getD t.product⟩
  let site : Site := ⟨master, c.name, c.position, identity⟩
  let settings ← Param.Setting.readAll site.device t.declarations c.settings
  pure
    { site
      type := t
      settings
      syncs := ⟨site.device, [], false⟩
      regs := ⟨site.device, t.entryLimit, []⟩
      pins := {}
      rig? := none
      state := .unknown }

/-- The slave without anything that setting it up made. -/
def cleared (s : Slave) : Slave :=
  { s with syncs := s.syncs.cleared, regs := s.regs.cleared, pins := {}, rig? := none }

@[simp] theorem isActive_cleared (s : Slave) : s.cleared.isActive = false := rfl

section Master

variable {μ : Type} [Master μ]

/-- The setup of a slave up to the point where its entries are located. -/
def prepare (s : Slave) : Setup μ Rig := do
  let rig ← s.type.setUp s.site s.settings
  let managers ← Action.ofChecked (← get).syncs.finish
  Logged.debug s!"slave {s.device}: {managers.length - 1} sync managers"
  Setup.onMaster (Master.configureSlave s.site.position s.site.identity managers)
  pure rig

/-- Sets the slave up and has the master configure it. -/
def setUp (s : Slave) : Setup μ Rig := do
  let rig ← s.prepare
  Setup.locate
  pure rig

/-- What is left of the slave when its setup has ended. -/
def conclude (s : Slave) (result : Except Fault Rig) (w : Workspace μ) :
    Logged (Except Fault Unit × Slave × μ) := do
  match result with
  | .ok rig =>
    Logged.info <|
      s!"slave {s.device} ({s.type.name}) configured, " ++
        s!"{w.regs.size} PDO entries, {w.pins.size} pins"
    let s := { s with syncs := w.syncs, regs := w.regs, pins := w.pins, rig? := some rig }
    pure (.ok (), s, w.master)
  | .error e =>
    Logged.error s!"slave {s.device} ({s.type.name}) disabled: {e.message}"
    pure (.error e, s.cleared, w.master)

/-- What an activation starts with. -/
def start (s : Slave) (m : μ) : Workspace μ := ⟨m, s.syncs.cleared, s.regs.cleared, {}⟩

/-- Activates the slave. It is inactive after a failure. -/
def activate (s : Slave) (m : μ) : Logged (Except Fault Unit × Slave × μ) := do
  let (result, w) ← s.setUp.exec (s.start m)
  s.conclude result w

theorem value_activate (s : Slave) (m : μ) :
    (s.activate m).value =
      match s.setUp.result ⟨m, s.syncs.cleared, s.regs.cleared, {}⟩ with
      | (.ok rig, w) =>
        (.ok (), { s with syncs := w.syncs, regs := w.regs, pins := w.pins, rig? := some rig },
          w.master)
      | (.error e, w) => (.error e, s.cleared, w.master) := by
  simp only [activate, start, Logged.value_bind, Action.result]
  rcases (s.setUp.exec ⟨m, s.syncs.cleared, s.regs.cleared, {}⟩).value with ⟨_ | _, w⟩ <;> rfl

/-- A slave is active after an attempt exactly if the attempt succeeded. -/
theorem isActive_activate (s : Slave) (m : μ) :
    (s.activate m).value.2.1.isActive = (s.activate m).value.1.isOk := by
  rw [value_activate]
  split <;> rfl

/-- Asks for the state of the slave. Where there is no answer it is unknown, which
counts as not operational. -/
def updateState (s : Slave) (m : μ) : Slave × μ :=
  match Master.slaveState s.site.position m with
  | (.ok state, m) => ({ s with state }, m)
  | (.error _, m) => ({ s with state := .unknown }, m)

/-- The rig of a slave that takes part in the cycle. -/
def cyclic? (s : Slave) : Option Rig := if s.state.operational then s.rig? else none

/-- The input half of a cycle. -/
def read (s : Slave) (image : Bytes) : Slave :=
  match s.cyclic? with
  | some rig => { s with pins := rig.read s.regs image s.pins }
  | none => s

/-- The output half of a cycle. -/
def write (s : Slave) (m : μ) : Logged (Slave × μ) :=
  match s.cyclic? with
  | some rig => do
    let (rig, m) ← rig.write s.regs s.pins m
    pure ({ s with rig? := some rig }, m)
  | none => pure (s, m)

end Master

theorem cyclic?_isSome (s : Slave) : s.cyclic?.isSome = s.isOperational := by
  unfold cyclic? isOperational isActive
  cases s.state.operational <;> simp

end Slave

end ServoBus
