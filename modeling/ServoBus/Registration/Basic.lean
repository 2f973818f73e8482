import ServoBus.Action
import ServoBus.Master
import ServoBus.Registration.Overlap

/-!
# Registered entries

A slave registers the entries that it reads or writes, up to a number that its type
fixes, and refers to them by their place in the list. Entries of one axis are first
registered in a list of their own and then appended as a whole; a reference into that
list is rebased by the place where it went.

Once the master has configured the slave it is asked for the offset of every entry.
An entry without an offset takes no part in a cycle.
-/

namespace ServoBus

/-- A reference to an entry of a list. -/
structure RegRef where
  index : Nat
deriving DecidableEq, Repr

/-- The reference after its list was appended at a place. -/
def RegRef.rebase (ref start : RegRef) : RegRef := ⟨start.index + ref.index⟩

structure Registrations where
  device : String
  capacity : Nat
  entries : List Registration := []
deriving DecidableEq, Repr

namespace Registrations

def size (r : Registrations) : Nat := r.entries.length

def get? (r : Registrations) (ref : RegRef) : Option Registration := r.entries[ref.index]?

def offset? (r : Registrations) (ref : RegRef) : Option Offset := (r.get? ref).bind (·.offset?)

def cleared (r : Registrations) : Registrations := ⟨r.device, r.capacity, []⟩

/-- The list with further entries at its end. -/
def extend (r : Registrations) (entries : List Registration) : Registrations :=
  { r with entries := r.entries ++ entries }

@[simp] theorem size_extend (r : Registrations) (entries : List Registration) :
    (r.extend entries).size = r.size + entries.length := List.length_append

/-- References into a list stay good when it is extended. -/
theorem get?_extend {r : Registrations} {ref : RegRef} (entries : List Registration)
    (h : ref.index < r.size) : (r.extend entries).get? ref = r.get? ref :=
  List.getElem?_append_left h

/-- A rebased reference denotes what it denoted in the list that was appended. -/
theorem get?_rebase (r other : Registrations) (ref : RegRef) :
    (r.extend other.entries).get? (ref.rebase ⟨r.size⟩) = other.get? ref := by
  have h : r.entries.length ≤ r.size + ref.index := Nat.le_add_right ..
  simp only [get?, extend, RegRef.rebase]
  rw [List.getElem?_append_right h]
  congr 1
  exact Nat.add_sub_cancel_left ..

/-- Adds an entry at the end. -/
def register (slave : Position) (address : ObjectAddress) (width : Nat) :
    Action Registrations RegRef := do
  let r ← get
  if r.capacity ≤ r.size then
    Logged.error <|
      s!"PDO entry registration of {address} failed for slave {r.device}, " ++
        s!"full with {r.size} of {r.capacity} entries used"
    throw (.registrationsFull r.device r.size r.capacity)
  set (r.extend [⟨slave, address, width, none⟩])
  pure ⟨r.size⟩

/-- Adds all entries of another list at the end, or none if they do not fit. -/
def append (other : Registrations) : Action Registrations RegRef := do
  let r ← get
  if r.capacity < r.size + other.size then
    Logged.error <|
      s!"cannot add {other.size} PDO entry registrations to slave {r.device}, " ++
        s!"{r.size} of {r.capacity} entries used"
    throw (.registrationsFull r.device r.size r.capacity)
  set (r.extend other.entries)
  pure ⟨r.size⟩

section Locate

variable {μ : Type} [Master μ]

/-- Asks the master for the offsets of entries up to the first refusal. The offsets
that were known before it are kept. -/
def locateFrom (device : String) :
    List Registration → μ → Logged (List Registration × Except Fault Unit × μ)
  | [], m => pure ([], .ok (), m)
  | r :: rs, m =>
    match Master.locateEntry r.slave r.address m with
    | (.error e, m) => do
      Logged.error s!"failed to register PDO entry {r.address} of slave {device}: {e.message}"
      pure (r :: rs, .error e, m)
    | (.ok o, m) => do
      let (rs, result, m) ← locateFrom device rs m
      pure ({ r with offset? := some o } :: rs, result, m)

/-- Asks the master for all offsets and checks that no two entries overlap. -/
def locate : Action (Registrations × μ) Unit := do
  let (r, m) ← get
  let (entries, result, m) ← liftM (locateFrom r.device r.entries m)
  set ({ r with entries }, m)
  match result with
  | .error e => throw e
  | .ok () => Action.ofChecked (checkOverlap entries)

end Locate

end Registrations

end ServoBus
