import ServoBus.Action
import ServoBus.Pin.Value

/-!
# Pin tables

The pins of a slave have distinct names and stand in the order in which they were
added. A pin is referred to by its place, which stays the same for good, since pins
are only ever added at the end.

The type of a pin is that of its value; whatever is put into it is converted first,
so it never changes.
-/

namespace ServoBus

/-- Who sets a pin: `input` pins are set by the host and sent to the slave, `output`
pins are set from what the slave sends, and `both` from either side. -/
inductive Pin.Direction where
  | input
  | output
  | both
deriving DecidableEq, Repr

structure Pin where
  name : String
  direction : Pin.Direction
  value : Pin.Value
deriving DecidableEq, Repr

namespace Pin

def kind (p : Pin) : Kind := p.value.kind

def put (p : Pin) (v : Value) : Pin := { p with value := v.convert p.kind }

@[simp] theorem name_put (p : Pin) (v : Value) : (p.put v).name = p.name := rfl

@[simp] theorem direction_put (p : Pin) (v : Value) : (p.put v).direction = p.direction := rfl

@[simp] theorem kind_put (p : Pin) (v : Value) : (p.put v).kind = p.kind := Value.kind_convert ..

def putRaw (p : Pin) (raw : Int) : Pin := { p with value := .ofRaw p.kind raw }

@[simp] theorem name_putRaw (p : Pin) (raw : Int) : (p.putRaw raw).name = p.name := rfl

@[simp] theorem kind_putRaw (p : Pin) (raw : Int) : (p.putRaw raw).kind = p.kind :=
  Value.kind_ofRaw ..

/-- The name under which the host knows a pin. The label tells apart pins of equal
names of one slave. -/
def fullName (master slave : String) (label? : Option String) (name : String) : String :=
  match label? with
  | some label => s!"{master}.{slave}.{label}-{name}"
  | none => s!"{master}.{slave}.{name}"

end Pin

/-- A reference to a pin of a table. -/
structure PinRef where
  index : Nat
deriving DecidableEq, Repr

structure PinTable where
  pins : List Pin := []
deriving DecidableEq, Repr

namespace PinTable

def size (t : PinTable) : Nat := t.pins.length

def find? (t : PinTable) (name : String) : Option PinRef :=
  (t.pins.findIdx? (·.name == name)).map PinRef.mk

def pin? (t : PinTable) (ref : PinRef) : Option Pin := t.pins[ref.index]?

/-- The raw value of a pin. -/
def raw (t : PinTable) (ref : PinRef) : Int := ((t.pin? ref).map (·.value.raw)).getD 0

def value? (t : PinTable) (name : String) : Option Pin.Value :=
  ((t.find? name).bind t.pin?).map (·.value)

/-- Changes the pin that is referred to. -/
def modify (t : PinTable) (ref : PinRef) (f : Pin → Pin) : PinTable :=
  ⟨t.pins.modify ref.index f⟩

@[simp] theorem size_modify (t : PinTable) (ref : PinRef) (f : Pin → Pin) :
    (t.modify ref f).size = t.size := List.length_modify ..

theorem pin?_modify (t : PinTable) (ref other : PinRef) (f : Pin → Pin) :
    (t.modify ref f).pin? other =
      if ref = other then (t.pin? other).map f else t.pin? other := by
  rcases ref with ⟨i⟩
  rcases other with ⟨j⟩
  simp only [modify, pin?, List.getElem?_modify, PinRef.mk.injEq]
  split <;> simp

def put (t : PinTable) (ref : PinRef) (v : Pin.Value) : PinTable := t.modify ref (·.put v)

def putRaw (t : PinTable) (ref : PinRef) (raw : Int) : PinTable := t.modify ref (·.putRaw raw)

/-- Adds a pin with the value zero at the end. -/
def push (t : PinTable) (name : String) (kind : Pin.Kind) (direction : Pin.Direction) :
    PinTable :=
  ⟨t.pins ++ [⟨name, direction, .zero kind⟩]⟩

@[simp] theorem size_push (t : PinTable) (name : String) (kind : Pin.Kind)
    (direction : Pin.Direction) : (t.push name kind direction).size = t.size + 1 := by
  simp [size, push]

/-- References to pins stay good when a pin is added. -/
theorem pin?_push {t : PinTable} {ref : PinRef} (name : String) (kind : Pin.Kind)
    (direction : Pin.Direction) (h : ref.index < t.size) :
    (t.push name kind direction).pin? ref = t.pin? ref :=
  List.getElem?_append_left h

theorem pin?_push_size (t : PinTable) (name : String) (kind : Pin.Kind)
    (direction : Pin.Direction) :
    (t.push name kind direction).pin? ⟨t.size⟩ = some ⟨name, direction, .zero kind⟩ := by
  simp [pin?, push, size]

/-- Adds a pin, unless its name is taken. -/
def add (name : String) (kind : Pin.Kind) (direction : Pin.Direction) :
    Action PinTable PinRef := do
  let t ← get
  if (t.find? name).isSome then
    Logged.error s!"duplicate pin {name}"
    throw (.duplicatePin name)
  set (t.push name kind direction)
  pure ⟨t.size⟩

def putNamed (t : PinTable) (name : String) (v : Pin.Value) : Except Fault PinTable :=
  match t.find? name with
  | some ref => .ok (t.put ref v)
  | none => .error (.unknownPin name)

end PinTable

end ServoBus
