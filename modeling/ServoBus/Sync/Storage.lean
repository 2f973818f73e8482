import Mathlib.Data.List.ModifyLast
import ServoBus.Sync.Builder

/-!
# Flat storage of sync managers

A description takes three arrays of fixed size, one for each level. A node holds no
children; it says where its children begin on the next level and how many they are. As
a child is always added behind all others and belongs to the latest node, counting it
there is all that has to be done.

To hand over a description, the children of every node are cut out of the arrays. A
cut that would reach behind the end of an array gives nothing, and the operations that
take cuts have no result then.
-/

namespace ServoBus.Sync

/-- A part of an array: where it begins, and how long it is. -/
structure Span where
  first : Nat
  count : Nat
deriving DecidableEq, Repr

namespace Span

/-- The part with one more element at its end. -/
def extend (s : Span) : Span := { s with count := s.count + 1 }

/-- Cuts the part out of an array. -/
def cut? {α : Type} (s : Span) (xs : List α) : Option (List α) :=
  if s.first + s.count ≤ xs.length then some ((xs.drop s.first).take s.count) else none

end Span

structure PdoNode where
  index : UInt16
  entries : Span
deriving DecidableEq, Repr

structure ManagerNode where
  number : Nat
  direction : Direction
  watchdog : Watchdog
  pdos : Span
deriving DecidableEq, Repr

structure Storage where
  device : String
  managers : List ManagerNode := []
  pdos : List PdoNode := []
  entries : List Entry := []
  failed : Bool := false
deriving DecidableEq, Repr

/-- A complete description: the PDOs have their entries, the sync managers are nodes. -/
structure Table where
  managers : List ManagerNode
  pdos : List Pdo
deriving DecidableEq, Repr

namespace Storage

/-- The storage without any node, as for a new device. -/
def cleared (s : Storage) : Storage := ⟨s.device, [], [], [], false⟩

def begin : Action Storage Unit := modify cleared

/-- Reports a rejection and marks the description as incomplete. -/
def reject {α : Type} (e : Fault) : Action Storage α := do
  Logged.error s!"{e.message}, not adding more"
  modify fun s => { s with failed := true }
  throw e

def addManager (direction : Direction) (watchdog : Watchdog) : Action Storage Unit := do
  let s ← get
  if managerLimit ≤ s.managers.length then
    reject (.syncsFull s.device managerLimit)
  else
    let node : ManagerNode := ⟨s.managers.length, direction, watchdog, ⟨s.pdos.length, 0⟩⟩
    set { s with managers := s.managers ++ [node] }

def addPdo (index : UInt16) : Action Storage Unit := do
  let s ← get
  if s.managers.isEmpty then
    reject (.noCurrentSync s.device)
  else if pdoLimit ≤ s.pdos.length then
    reject (.pdosFull s.device pdoLimit)
  else
    let node : PdoNode := ⟨index, ⟨s.entries.length, 0⟩⟩
    set
      { s with
        pdos := s.pdos ++ [node]
        managers := s.managers.modifyLast fun m => { m with pdos := m.pdos.extend } }

/-- Whether the latest sync manager has a PDO. The latest PDO may be an older one's. -/
def hasOpenPdo (s : Storage) : Bool :=
  s.managers.getLast?.any fun m => decide (0 < m.pdos.count)

def addEntry (e : Entry) : Action Storage Unit := do
  let s ← get
  if !s.hasOpenPdo then
    reject (.noCurrentPdo s.device)
  else if entryLimit ≤ s.entries.length then
    reject (.entriesFull s.device entryLimit)
  else
    set
      { s with
        entries := s.entries ++ [e]
        pdos := s.pdos.modifyLast fun p => { p with entries := p.entries.extend } }

/-- The index of the latest PDO of all. -/
def latestPdoIndex? (s : Storage) : Option UInt16 := s.pdos.getLast?.map (·.index)

/-- The number of entries in the PDO that takes further entries. -/
def openEntryCount (s : Storage) : Nat :=
  if s.hasOpenPdo then (s.pdos.getLast?.map (·.entries.count)).getD 0 else 0

/-- The finished description, unless a node was rejected. -/
def finish (s : Storage) : Option (Checked Table) :=
  if s.failed then
    some <| Checked.reject
      s!"sync manager configuration for slave {s.device} was rejected earlier, not activating"
      (.incompleteSyncs s.device)
  else do
    let pdos ← s.pdos.mapM fun p => (p.entries.cut? s.entries).map (Pdo.mk p.index)
    some (pure (Table.mk s.managers pdos))

end Storage

/-- The sync managers with their PDOs, closed by the terminator. -/
def Table.infos (t : Table) : Option (List Manager) := do
  let managers ← t.managers.mapM fun m =>
    (m.pdos.cut? t.pdos).map (Manager.mk m.number m.direction m.watchdog)
  some (managers ++ [.terminator])

end ServoBus.Sync
