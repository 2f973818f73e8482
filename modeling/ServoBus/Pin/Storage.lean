import Mathlib.Data.List.Basic
import ServoBus.Pin.Table

/-!
# Storage of pins

A pin is stored with the type that it was added with, and beside the pins stands a directory in
which the place of each of them is found under its name, so that a name is not looked for in all of
them. A pin is reached by its place alone. A place at which there is no pin gives nothing, and the
operations on it have no result then.
-/

namespace ServoBus.Pin

/-- A stored pin. -/
structure Slot where
  name : String
  kind : Kind
  direction : Direction
  value : Value
deriving DecidableEq, Repr

structure Storage where
  slots : List Slot := []
  places : Std.HashMap String PinRef := {}

namespace Storage

def size (s : Storage) : Nat := s.slots.length

def slot? (s : Storage) (ref : PinRef) : Option Slot := s.slots[ref.index]?

def find? (s : Storage) (name : String) : Option PinRef := s.places[name]?

/-- Stores a pin with the value zero behind all others. -/
def push (s : Storage) (name : String) (kind : Kind) (direction : Direction) : Storage where
  slots := s.slots ++ [⟨name, kind, direction, .zero kind⟩]
  places := s.places.insert name ⟨s.size⟩

/-- Adds a pin, unless its name is taken. -/
def add (name : String) (kind : Kind) (direction : Direction) : Action Storage PinRef := do
  let s ← get
  if s.places.contains name then
    Logged.error s!"duplicate pin {name}"
    throw (.duplicatePin name)
  set (s.push name kind direction)
  pure ⟨s.size⟩

/-- Stores a value that depends on the type of the pin. -/
def store? (s : Storage) (ref : PinRef) (value : Kind → Value) : Option Storage :=
  (s.slot? ref).map fun slot =>
    { s with slots := s.slots.set ref.index { slot with value := value slot.kind } }

def put? (s : Storage) (ref : PinRef) (v : Value) : Option Storage := s.store? ref v.convert

def putRaw? (s : Storage) (ref : PinRef) (raw : Int) : Option Storage := s.store? ref (.ofRaw · raw)

def putNamed? (s : Storage) (name : String) (v : Value) : Option (Except Fault Storage) :=
  match s.find? name with
  | some ref => (s.put? ref v).map .ok
  | none => some (.error (.unknownPin name))

end Storage

end ServoBus.Pin
