import ServoBus.Pin.Table
import ServoBus.Registration.Basic
import ServoBus.Sync.Builder

/-!
# Setting up a slave

Before a slave can take part in the exchange its parameters are sent to it, its sync
managers are described, and its entries and pins are registered. All of this happens
in a workspace that holds the master and what has been made so far. The site says
which slave it is; it does not change meanwhile.

A step that fails leaves what it did before in the workspace. Whoever set up the
slave throws that away.
-/

namespace ServoBus

/-- Where a slave is and what it is called. -/
structure Site where
  master : String
  slave : String
  position : Position
  identity : Identity
deriving DecidableEq, Repr

/-- The name of a slave in messages. -/
def Site.device (s : Site) : String := s!"{s.master}.{s.slave}"

structure Workspace (μ : Type) where
  master : μ
  syncs : Sync.Builder
  regs : Registrations
  pins : PinTable

abbrev Setup (μ α : Type) := Action (Workspace μ) α

namespace Setup

variable {μ α : Type}

def onMaster (step : μ → Except Fault α × μ) : Setup μ α :=
  Action.zoom (·.master) (fun m w => { w with master := m }) (Action.ofStep step)

def onSyncs (x : Action Sync.Builder α) : Setup μ α :=
  Action.zoom (·.syncs) (fun b w => { w with syncs := b }) x

def onRegs (x : Action Registrations α) : Setup μ α :=
  Action.zoom (·.regs) (fun r w => { w with regs := r }) x

def onPins (x : Action PinTable α) : Setup μ α :=
  Action.zoom (·.pins) (fun t w => { w with pins := t }) x

/-- The offsets of all entries, from the master. -/
def locate [Master μ] : Setup μ Unit :=
  Action.zoom (fun w => (w.regs, w.master)) (fun (r, m) w => { w with regs := r, master := m })
    Registrations.locate

/-- Asks for the offsets of all entries and does not look whether they overlap. -/
def ask [Master μ] : Setup μ Unit := do
  let w ← get
  let (entries, result, master) ←
    liftM (Registrations.locateFrom w.regs.device w.regs.entries w.master)
  set { w with regs := { w.regs with entries }, master }
  MonadExcept.ofExcept result

def addPin (site : Site) (label? : Option String) (name : String) (kind : Pin.Kind)
    (direction : Pin.Direction) : Setup μ PinRef :=
  onPins (PinTable.add (Pin.fullName site.master site.slave label? name) kind direction)

def putPin (ref : PinRef) (v : Pin.Value) : Setup μ Unit := onPins (modify (·.put ref v))

section Objects

variable [Master μ]

/-- The content of an object, which has to be as long as expected. -/
def readObject (site : Site) (a : ObjectAddress) (length : Nat) : Setup μ Bytes := do
  let content ← Action.noting (onMaster (Master.upload site.position a length)) fun e =>
    Logged.error s!"slave {site.device}: failed to read SDO {a}: {e.message}"
  if content.length ≠ length then
    Logged.error <|
      s!"slave {site.device}: invalid result size on SDO upload of {a}, " ++
        s!"requested {length} bytes, got {content.length}"
    throw (.uploadSize a length content.length)
  pure content

/-- The content of an object of 32 bits. -/
def readWord32 (site : Site) (a : ObjectAddress) : Setup μ UInt32 :=
  (fun content => UInt32.ofNat content.value) <$> readObject site a 4

/-- Sends bytes to an object, now and whenever the slave is configured again. -/
def writeObject (site : Site) (a : ObjectAddress) (content : Bytes) : Setup μ Unit :=
  let send : Setup μ Unit := do
    onMaster (Master.download site.position a content)
    onMaster (Master.addConfig site.position a content)
  send.noting fun e =>
    Logged.error s!"slave {site.device}: failed to write SDO {a}: {e.message}"

/-- Sends bytes to an object because of a parameter. -/
def writeParam (site : Site) (a : ObjectAddress) (content : Bytes) (param : String) :
    Setup μ Unit :=
  (writeObject site a content).noting fun _ =>
    Logged.error s!"slave {site.device}: failed to apply modparam {param}"

end Objects

end Setup

end ServoBus
