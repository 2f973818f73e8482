import ServoBus.Device.Generic
import ServoBus.Device.Stepper

/-!
# Registries

A registry holds the device types that slaves can have, in the order in which they
were registered. Names are distinct, and a type is found by its name.
-/

namespace ServoBus

/-- Sets up a slave of a device type. -/
def DeviceType.setUp {μ : Type} [Master μ] (t : DeviceType) (site : Site)
    (settings : List Param.Setting) : Setup μ Rig :=
  match t.family with
  | .generic => Generic.setUp site settings
  | .stepper => Stepper.setUp t site settings

structure Registry where
  types : List DeviceType := []
deriving DecidableEq, Repr

namespace Registry

def size (r : Registry) : Nat := r.types.length

/-- Adds a device type, unless its name is taken. -/
def register (r : Registry) (t : DeviceType) : Checked Registry :=
  if r.types.any (·.name == t.name) then
    Checked.reject s!"device type {t.name} is already registered" (.duplicateDeviceType t.name)
  else pure ⟨r.types ++ [t]⟩

def find (r : Registry) (name : String) : Except Fault DeviceType :=
  match r.types.find? (·.name == name) with
  | some t => .ok t
  | none => .error (.unknownDeviceType name)

/-- The device types that come with this library. -/
def builtin : Except Fault (List DeviceType) := do
  let generic ← Generic.type
  let steppers ← Stepper.types
  pure (generic :: steppers)

/-- The registry of all device types that come with this library. -/
def standard : Checked Registry := do
  let types ← (MonadExcept.ofExcept builtin : Checked (List DeviceType))
  let r ← types.foldlM register {}
  Logged.debug s!"{r.size} device types registered"
  pure r

end Registry

end ServoBus
