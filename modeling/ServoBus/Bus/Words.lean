import ServoBus.Brittle
import ServoBus.Bus
import ServoBus.Device.Words
import ServoBus.Registration.Words

/-!
# Buses in machine words

A bus on a machine whose counts have to fit. Whatever is computed from an offset is computed in
words, and the bus breaks where one does not fit: when the entries of a slave, or those of all
active slaves, are checked for overlaps, and when a field or a line is looked up in a cycle.

The arithmetic of a machine that does not check it wraps around instead of breaking. As long as
every number fits, the two do the same.
-/

namespace ServoBus

variable {μ : Type} [Master μ]

/-- Checks that no two entries overlap. -/
def Brittle.checkOverlap {σ : Type} (entries : List Registration) : Brittle σ Unit := do
  let check ← need (checkOverlap? entries)
  ofAction (Action.ofChecked check)

theorem Brittle.result?_checkOverlap {σ : Type} (entries : List Registration) (s : σ) :
    (Brittle.checkOverlap entries).result? s =
      (checkOverlap? entries).map fun check => (check.outcome, s) := by
  rw [Brittle.checkOverlap, result?_bind]
  cases checkOverlap? entries <;> rfl

/-- Asks the master for the offsets of all entries and checks that no two of them overlap. -/
def Setup.locate? : Brittle (Workspace μ) Unit := do
  Brittle.ofAction ask
  Brittle.checkOverlap (← get).regs.entries

namespace Slave

/-- Sets the slave up and has the master configure it. -/
def setUp? (s : Slave) : Brittle (Workspace μ) Rig := do
  let rig ← Brittle.ofAction s.prepare
  Setup.locate?
  pure rig

/-- Activates the slave. It is inactive after a failure. -/
def activate? (s : Slave) (m : μ) : OptionT Logged (Except Fault Unit × Slave × μ) := do
  let (result, w) ← s.setUp?.run.run (s.start m)
  OptionT.lift (s.conclude result w)

/-- The input half of a cycle. -/
def read? (s : Slave) (image : Bytes) : Option Slave :=
  match s.cyclic? with
  | some rig => do
    let pins ← rig.read? s.regs image s.pins
    some { s with pins }
  | none => some s

/-- The output half of a cycle. -/
def write? (s : Slave) (m : μ) : OptionT Logged (Slave × μ) :=
  match s.cyclic? with
  | some rig => do
    let (rig, m) ← rig.write? s.regs s.pins m
    pure ({ s with rig? := some rig }, m)
  | none => pure (s, m)

end Slave

namespace Bus

/-- Activates slaves one after the other. -/
def activateAll? : List Slave → μ → OptionT Logged (List Slave × μ)
  | [], m => pure ([], m)
  | s :: rest, m => do
    let (_, s, m) ← s.activate? m
    let (rest, m) ← activateAll? rest m
    pure (s :: rest, m)

/-- Activates every slave and gives the number of active ones. -/
def configure? : Brittle (Bus μ) Nat := do
  let b ← get
  let (slaves, master) ← liftM (activateAll? b.slaves b.master)
  let b := { b with slaves, master }
  set b
  Brittle.checkOverlap b.activeEntries
  Brittle.ofAction <|
    liftM (Logged.info s!"master {b.name}: {b.activeCount} of {b.slaves.length} slaves configured")
  pure b.activeCount

def readAll? : List Slave → μ → Option (List Slave × μ)
  | [], m => some ([], m)
  | s :: rest, m => do
    let (s, m) := s.updateState m
    let s ← s.read? (Master.image m)
    let (rest, m) ← readAll? rest m
    some (s :: rest, m)

/-- The input half of a cycle: asks for the state of every slave and sets the pins of
those that are operational. -/
def read? (b : Bus μ) : Option (Bus μ) := do
  let (slaves, master) ← readAll? b.slaves b.master
  some { b with slaves, master }

def writeAll? : List Slave → μ → OptionT Logged (List Slave × μ)
  | [], m => pure ([], m)
  | s :: rest, m => do
    let (s, m) ← s.write? m
    let (rest, m) ← writeAll? rest m
    pure (s :: rest, m)

/-- The output half of a cycle. -/
def write? (b : Bus μ) : OptionT Logged (Bus μ) := do
  let (slaves, master) ← writeAll? b.slaves b.master
  pure { b with slaves, master }

end Bus

end ServoBus
