import ServoBus.Object

/-!
# Sync managers

What a slave exchanges in a cycle is described by a tree: sync managers hold PDOs, and
a PDO holds entries, each in the order of the wire. A finished description is a list
of sync managers that are numbered by their place, and it ends with a terminator.
-/

namespace ServoBus.Sync

inductive Direction where
  | invalid
  | output
  | input
deriving DecidableEq, Repr

inductive Watchdog where
  | default
  | enable
  | disable
deriving DecidableEq, Repr

/-- An object in a PDO, with its width in bits. -/
structure Entry where
  address : ObjectAddress
  width : Nat
deriving DecidableEq, Repr

structure Pdo where
  index : UInt16
  entries : List Entry
deriving DecidableEq, Repr

structure Manager where
  number : Nat
  direction : Direction
  watchdog : Watchdog
  pdos : List Pdo
deriving DecidableEq, Repr

namespace Manager

/-- What closes a list of sync managers. -/
def terminator : Manager := ⟨255, .invalid, .default, []⟩

def isTerminator (m : Manager) : Bool := m.number == terminator.number

/-- The entries of all PDOs. -/
def entries (m : Manager) : List Entry := m.pdos.flatMap (·.entries)

end Manager

end ServoBus.Sync
