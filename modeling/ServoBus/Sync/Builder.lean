import ServoBus.Action
import ServoBus.Sync.Basic

/-!
# Building sync managers

A description of sync managers is built up in the order of the wire: a PDO goes into
the latest sync manager, an entry into the latest PDO of that sync manager. Masters
bound the number of nodes on each level. A node that finds no place is rejected, and
from then on the description counts as incomplete, so that it is never handed to a
master.

The tree is kept with the latest node first on every level. `managers` is the same
tree in the order of the wire, and the laws of the operations speak of it.
-/

namespace ServoBus.Sync

def managerLimit : Nat := 4

def pdoLimit : Nat := 8

def entryLimit : Nat := 32

structure Builder where
  device : String
  /-- The sync managers, their PDOs and their entries, each with the latest first. -/
  latest : List Manager := []
  failed : Bool := false
deriving DecidableEq, Repr

namespace Builder

/-- The order of the wire for one PDO. -/
def wirePdo (p : Pdo) : Pdo := { p with entries := p.entries.reverse }

/-- The order of the wire for one sync manager. -/
def wireManager (m : Manager) : Manager := { m with pdos := (m.pdos.map wirePdo).reverse }

/-- The sync managers in the order of the wire. -/
def managers (b : Builder) : List Manager := (b.latest.map wireManager).reverse

def pdos (b : Builder) : List Pdo := b.managers.flatMap (·.pdos)

def entries (b : Builder) : List Entry := b.managers.flatMap (·.entries)

def pdoIndices (b : Builder) : List UInt16 := b.pdos.map (·.index)

def managerCount (b : Builder) : Nat := b.latest.length

def pdoCount (b : Builder) : Nat := (b.latest.flatMap (·.pdos)).length

def entryCount (b : Builder) : Nat := (b.latest.flatMap (·.entries)).length

/-- The index of the latest PDO of all. -/
def latestPdoIndex? (b : Builder) : Option UInt16 :=
  b.latest.findSome? fun m => m.pdos.head?.map (·.index)

/-- The number of entries in the PDO that takes further entries. -/
def openEntryCount (b : Builder) : Nat :=
  ((b.latest.head?.bind (·.pdos.head?)).map (·.entries.length)).getD 0

/-- The description without any node, as for a new device. -/
def cleared (b : Builder) : Builder := ⟨b.device, [], false⟩

/-- Reports a rejection and marks the description as incomplete. -/
def reject {α : Type} (e : Fault) : Action Builder α := do
  Logged.error s!"{e.message}, not adding more"
  modify fun b => { b with failed := true }
  throw e

/-- The tree with a further PDO, in the latest sync manager. -/
def pushPdo? (index : UInt16) : List Manager → Option (List Manager)
  | [] => none
  | m :: ms => some ({ m with pdos := ⟨index, []⟩ :: m.pdos } :: ms)

/-- The tree with a further entry, in the latest PDO of the latest sync manager. -/
def pushEntry? (e : Entry) : List Manager → Option (List Manager)
  | { number, direction, watchdog, pdos := p :: ps } :: ms =>
    some (⟨number, direction, watchdog, ⟨p.index, e :: p.entries⟩ :: ps⟩ :: ms)
  | _ => none

def addManager (direction : Direction) (watchdog : Watchdog) : Action Builder Unit := do
  let b ← get
  if managerLimit ≤ b.managerCount then
    reject (.syncsFull b.device managerLimit)
  else
    set { b with latest := ⟨b.managerCount, direction, watchdog, []⟩ :: b.latest }

def addPdo (index : UInt16) : Action Builder Unit := do
  let b ← get
  match pushPdo? index b.latest with
  | none => reject (.noCurrentSync b.device)
  | some latest =>
    if pdoLimit ≤ b.pdoCount then reject (.pdosFull b.device pdoLimit)
    else set { b with latest }

def addEntry (e : Entry) : Action Builder Unit := do
  let b ← get
  match pushEntry? e b.latest with
  | none => reject (.noCurrentPdo b.device)
  | some latest =>
    if entryLimit ≤ b.entryCount then reject (.entriesFull b.device entryLimit)
    else set { b with latest }

theorem result_reject {α : Type} (e : Fault) (b : Builder) :
    (reject e : Action Builder α).result b = (.error e, { b with failed := true }) := rfl

theorem result_addManager (direction : Direction) (watchdog : Watchdog) (b : Builder) :
    (addManager direction watchdog).result b =
      if managerLimit ≤ b.managerCount then
        (.error (.syncsFull b.device managerLimit), { b with failed := true })
      else
        (.ok (), { b with latest := ⟨b.managerCount, direction, watchdog, []⟩ :: b.latest }) := by
  rw [addManager, Action.result_bind]
  simp only [Action.result_get]
  split <;> rfl

theorem result_addPdo (index : UInt16) (b : Builder) :
    (addPdo index).result b =
      match pushPdo? index b.latest with
      | none => (.error (.noCurrentSync b.device), { b with failed := true })
      | some latest =>
        if pdoLimit ≤ b.pdoCount then
          (.error (.pdosFull b.device pdoLimit), { b with failed := true })
        else (.ok (), { b with latest }) := by
  rw [addPdo, Action.result_bind]
  simp only [Action.result_get]
  split
  · rfl
  · split <;> rfl

theorem result_addEntry (e : Entry) (b : Builder) :
    (addEntry e).result b =
      match pushEntry? e b.latest with
      | none => (.error (.noCurrentPdo b.device), { b with failed := true })
      | some latest =>
        if entryLimit ≤ b.entryCount then
          (.error (.entriesFull b.device entryLimit), { b with failed := true })
        else (.ok (), { b with latest }) := by
  rw [addEntry, Action.result_bind]
  simp only [Action.result_get]
  split
  · rfl
  · split <;> rfl

/-- A sync manager stands behind all others on the wire. -/
theorem managers_cons (b : Builder) (m : Manager) :
    managers { b with latest := m :: b.latest } = b.managers ++ [wireManager m] := by
  simp [managers]

/-- A PDO stands behind all others on the wire. -/
theorem pdos_pushPdo? {b : Builder} {index : UInt16} {latest : List Manager}
    (h : pushPdo? index b.latest = some latest) :
    pdos { b with latest } = b.pdos ++ [⟨index, []⟩] := by
  cases hl : b.latest with
  | nil => simp [hl, pushPdo?] at h
  | cons m ms =>
    rw [hl, pushPdo?, Option.some.injEq] at h
    subst h
    simp [pdos, managers, hl, wireManager, wirePdo]

/-- An entry stands behind all others on the wire. -/
theorem entries_pushEntry? {b : Builder} {e : Entry} {latest : List Manager}
    (h : pushEntry? e b.latest = some latest) :
    entries { b with latest } = b.entries ++ [e] := by
  unfold pushEntry? at h
  split at h
  · next hl =>
    rw [Option.some.injEq] at h
    subst h
    simp [entries, managers, hl, wireManager, wirePdo, Manager.entries]
  · simp at h

/-- The finished description, unless a node was rejected. -/
def finish (b : Builder) : Checked (List Manager) :=
  if b.failed then
    Checked.reject
      s!"sync manager configuration for slave {b.device} was rejected earlier, not activating"
      (.incompleteSyncs b.device)
  else pure (b.managers ++ [.terminator])

theorem outcome_finish (b : Builder) :
    b.finish.outcome =
      if b.failed then .error (.incompleteSyncs b.device)
      else .ok (b.managers ++ [.terminator]) := by
  unfold finish
  split <;> rfl

end Builder

end ServoBus.Sync
