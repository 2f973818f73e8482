import ServoBus.Checked
import ServoBus.Object

/-!
# Overlapping entries

Two entries in the process image must not share a bit. The entries that have an offset
are put in the order of their positions, and then only neighbours are compared: an
entry that reaches over its neighbour's start is the first to be found, and one that
reaches over a later start reaches over its neighbour's start as well.

Entries at equal positions stay in the order in which they were registered, which
fixes the pair that is named.
-/

namespace ServoBus

/-- An entry that a slave uses, and its place once that is known. -/
structure Registration where
  slave : Position
  address : ObjectAddress
  width : Nat
  offset? : Option Offset
deriving DecidableEq, Repr

/-- The bits that an entry takes in the process image: the first one, and the first
one behind it. -/
structure Extent where
  address : ObjectAddress
  start : Nat
  stop : Nat
deriving DecidableEq, Repr

namespace Extent

/-- Comparison by start, and then by stop. -/
def le (a b : Extent) : Bool := a.start < b.start || a.start == b.start && a.stop ≤ b.stop

theorem le_iff {a b : Extent} :
    a.le b = true ↔ a.start < b.start ∨ a.start = b.start ∧ a.stop ≤ b.stop := by
  simp [le]

theorem le_total (a b : Extent) : (a.le b || b.le a) = true := by
  simp only [Bool.or_eq_true, le_iff]
  omega

theorem le_of_not_le {a b : Extent} (h : ¬ a.le b = true) : b.le a = true := by
  simpa [h] using le_total a b

theorem le_trans (a b c : Extent) (hab : a.le b = true) (hbc : b.le c = true) :
    a.le c = true := by
  simp only [le_iff] at *
  omega

/-- Puts an extent into sorted ones, before those that are equal to it. -/
def insert (a : Extent) : List Extent → List Extent
  | [] => [a]
  | b :: rest => if a.le b then a :: b :: rest else b :: insert a rest

/-- Sorts extents. Equal ones stay in their order. -/
def sort : List Extent → List Extent
  | [] => []
  | a :: rest => insert a (sort rest)

/-- The first extent that reaches over the start of the next one, with that one. -/
def clash? : List Extent → Option (Extent × Extent)
  | a :: b :: rest => if b.start < a.stop then some (a, b) else clash? (b :: rest)
  | _ => none

/-- Refuses extents that overlap. -/
def check (extents : List Extent) : Checked Unit :=
  match clash? (sort extents) with
  | none => pure ()
  | some (a, b) =>
    Checked.reject (Fault.overlap a.address b.address).message (.overlap a.address b.address)

end Extent

namespace Registration

def extent? (r : Registration) : Option Extent :=
  r.offset?.map fun o => ⟨r.address, o.position, o.position + r.width⟩

end Registration

/-- Two entries that share bits, if there are any. -/
def overlapping? (entries : List Registration) : Option (Extent × Extent) :=
  Extent.clash? (Extent.sort (entries.filterMap (·.extent?)))

def checkOverlap (entries : List Registration) : Checked Unit :=
  Extent.check (entries.filterMap (·.extent?))

theorem outcome_checkOverlap (entries : List Registration) :
    (checkOverlap entries).outcome =
      match overlapping? entries with
      | none => .ok ()
      | some (a, b) => .error (.overlap a.address b.address) := by
  unfold checkOverlap Extent.check overlapping?
  split <;> rfl

end ServoBus
