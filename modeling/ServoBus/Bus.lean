import ServoBus.Slave

/-!
# Buses

A bus is a master with its slaves. Its configuration activates the slaves one after
the other; one that fails does not keep the others from being activated. Entries of
different slaves must not overlap either, which is checked at the end.

A cycle consists of the input half for every slave, the exchange by the master, and
the output half for every slave, each in the order in which the slaves were added.
-/

namespace ServoBus

structure Bus (μ : Type) where
  name : String
  master : μ
  slaves : List Slave := []

namespace Bus

variable {μ : Type}

/-- Adds a slave, if its type is known and its settings are valid. -/
def addSlave (registry : Registry) (c : SlaveConfig) : Action (Bus μ) Unit := do
  let b ← get
  let find : Action (Bus μ) DeviceType := MonadExcept.ofExcept (registry.find c.typeName)
  let t ← find.noting fun e => Logged.error s!"slave {b.name}.{c.name}: {e.message}"
  let s ← Action.ofChecked (Slave.create b.name c t)
  Logged.debug s!"slave {s.device} added at position {c.position.toNat}"
  set { b with slaves := b.slaves ++ [s] }

def activeCount (b : Bus μ) : Nat := b.slaves.countP (·.isActive)

/-- The entries of all active slaves. -/
def activeEntries (b : Bus μ) : List Registration :=
  (b.slaves.filter (·.isActive)).flatMap (·.regs.entries)

def slave (b : Bus μ) (name : String) : Except Fault Slave :=
  match b.slaves.find? (·.name == name) with
  | some s => .ok s
  | none => .error (.unknownSlave name)

/-- The value of a pin of any slave. -/
def pin? (b : Bus μ) (name : String) : Option Pin.Value :=
  b.slaves.findSome? (·.pins.value? name)

/-- Changes the pins of the first slave that a test holds of. -/
def changePins (p : Slave → Bool) (missing : Fault) (f : PinTable → Except Fault PinTable) :
    List Slave → Except Fault (List Slave)
  | [] => .error missing
  | s :: rest =>
    if p s then (fun pins => { s with pins } :: rest) <$> f s.pins
    else (s :: ·) <$> changePins p missing f rest

/-- Sets a pin of any slave by its full name. -/
def setPin (b : Bus μ) (name : String) (v : Pin.Value) : Except Fault (Bus μ) :=
  let owns (s : Slave) : Bool := (s.pins.find? name).isSome
  (fun slaves => { b with slaves }) <$>
    changePins owns (.unknownPin name) (·.putNamed name v) b.slaves

/-- Sets a pin of a slave that is named, too. -/
def setSlavePin (b : Bus μ) (slave name : String) (v : Pin.Value) : Except Fault (Bus μ) :=
  (fun slaves => { b with slaves }) <$>
    changePins (·.name == slave) (.unknownSlave slave) (·.putNamed name v) b.slaves

section Master

variable [Master μ]

/-- Activates slaves one after the other. -/
def activateAll : List Slave → μ → Logged (List Slave × μ)
  | [], m => pure ([], m)
  | s :: rest, m => do
    let (_, s, m) ← s.activate m
    let (rest, m) ← activateAll rest m
    pure (s :: rest, m)

/-- Activates every slave and gives the number of active ones. -/
def configure : Action (Bus μ) Nat := do
  let b ← get
  let (slaves, master) ← liftM (activateAll b.slaves b.master)
  let b := { b with slaves, master }
  set b
  Action.ofChecked (checkOverlap b.activeEntries)
  Logged.info s!"master {b.name}: {b.activeCount} of {b.slaves.length} slaves configured"
  pure b.activeCount

def readAll : List Slave → μ → List Slave × μ
  | [], m => ([], m)
  | s :: rest, m =>
    let (s, m) := s.updateState m
    let s := s.read (Master.image m)
    let (rest, m) := readAll rest m
    (s :: rest, m)

/-- The input half of a cycle: asks for the state of every slave and sets the pins of
those that are operational. -/
def read (b : Bus μ) : Bus μ :=
  let (slaves, master) := readAll b.slaves b.master
  { b with slaves, master }

def writeAll : List Slave → μ → Logged (List Slave × μ)
  | [], m => pure ([], m)
  | s :: rest, m => do
    let (s, m) ← s.write m
    let (rest, m) ← writeAll rest m
    pure (s :: rest, m)

/-- The output half of a cycle. -/
def write (b : Bus μ) : Logged (Bus μ) := do
  let (slaves, master) ← writeAll b.slaves b.master
  pure { b with slaves, master }

end Master

end Bus

end ServoBus
