import ServoBus.Param.Declaration
import ServoBus.Text.Quoted

/-!
# Device types

A device type says what a slave of that type is: its identity, how many axes and
digital lines it has, which parameters it takes, and how it is set up.
-/

namespace ServoBus

/-- The ways in which devices are set up. -/
inductive Family where
  /-- Drives that are described by their parameters alone. -/
  | generic
  /-- Stepper drives with digital lines. -/
  | stepper
deriving DecidableEq, Repr

structure DeviceType where
  name : String
  vendor : UInt32
  product : UInt32
  /-- How many entries a slave may register. -/
  entryLimit : Nat
  axes : Nat
  digitalInputs : Nat
  digitalOutputs : Nat
  declarations : List Param.Declaration
  /-- Defaults that the declarations leave open. -/
  manual : List Param.ManualEntry
  family : Family
deriving DecidableEq, Repr

namespace DeviceType

/-- A declared parameter with its default. -/
structure Documented where
  name : String
  default : String
  comment? : Option String
deriving DecidableEq, Repr

/-- The parameters whose default is known: those that are declared with one, and
those of the manual that are not among them. -/
def documented (t : DeviceType) : List Documented :=
  let declared := t.declarations.filterMap fun d =>
    d.default?.map fun value => ⟨d.name, value, d.comment?⟩
  t.manual.foldl (fun known e =>
    if known.any (·.name == e.name) then known
    else known ++ [⟨e.name, e.default, some e.comment⟩]) declared

/-- A line that shows a device type to somebody who looks for a fault in it. -/
def summary (t : DeviceType) : String :=
  let lines := s!"axes: {t.axes}, digital_in: {t.digitalInputs}, digital_out: {t.digitalOutputs}"
  s!"DeviceType \x7b name: {Text.quote t.name}, vendor_id: {t.vendor.toNat}, " ++
    s!"product_code: {t.product.toNat}, pdo_entry_count: {t.entryLimit}, " ++
    s!"flags: DeviceFlags \x7b {lines} \x7d, modparams: {t.declarations.length} \x7d"

end DeviceType

end ServoBus
