import Mathlib.Data.List.Flatten
import ServoBus.Proofs.Image.Assign
import ServoBus.Proofs.Pin.Reading
import ServoBus.Proofs.Slave.Seen

/-!
# What a slave takes

All that the input half of a cycle does to the pins of a slave is a list of readings, which
depends on the entries of the slave and on the image, but not on the pins. The pins are those of
the status words, of the input objects and of the input lines, so none of them is set twice.
-/

namespace ServoBus

variable (regs : Registrations) (image : Bytes)

namespace Axis.Channel

/-- The reading of a mapped object. -/
def takeMapped? (m : Mapped) : Option Reading :=
  (regs.offset? m.entry).map fun o =>
    ⟨m.pin, (Field.mk o m.format.width).read m.format.signed image⟩

def takes (c : Channel) : List Reading :=
  (c.status :: c.inputs.map (·.2)).filterMap (takeMapped? regs image)

theorem read_eq (c : Channel) (pins : PinTable) :
    c.read regs image pins = Reading.applyAll (c.takes regs image) pins := by
  rw [read, takes, Reading.applyAll, List.foldl_filterMap]
  congr 1
  funext t m
  rw [readMapped, takeMapped?]
  cases regs.offset? m.entry with
  | none => rfl
  | some o => rfl

theorem pins_takes (c : Channel) :
    ((c.takes regs image).map (·.pin)).Sublist (c.status.pin :: c.inputs.map (·.2.pin)) := by
  have hpins : c.status.pin :: c.inputs.map (·.2.pin) =
      (c.status :: c.inputs.map (·.2)).map (·.pin) := by
    rw [List.map_cons, List.map_map]
    rfl
  rw [hpins, takes]
  induction c.status :: c.inputs.map (·.2) with
  | nil => exact List.nil_sublist _
  | cons m ms ih =>
    rw [List.filterMap_cons, takeMapped?]
    cases regs.offset? m.entry with
    | none => exact ih.cons _
    | some o => exact ih.cons_cons _

end Axis.Channel

namespace PackedBits

/-- The reading of a line. -/
def takeBit (o : Offset) (bit : Nat × PinRef) : Reading :=
  ⟨bit.2, (bitField (o.shift bit.1)).read false image⟩

def takes (p : PackedBits) : List Reading :=
  match regs.offset? p.entry with
  | some o => p.bits.map (takeBit image o)
  | none => []

theorem readBit_eq (o : Offset) (pins : PinTable) (bit : Nat × PinRef) :
    readBit o image pins bit = Reading.apply pins (takeBit image o bit) := by
  rw [readBit, Reading.apply, takeBit, read_bitField, PinTable.put, PinTable.putRaw]
  simp only [Pin.put_bit]

theorem read_eq (p : PackedBits) (pins : PinTable) :
    p.read regs image pins = Reading.applyAll (p.takes regs image) pins := by
  rw [read, takes]
  cases regs.offset? p.entry with
  | none => rfl
  | some o =>
    dsimp only
    rw [Reading.applyAll, List.foldl_map]
    congr 1
    funext t bit
    exact readBit_eq image o t bit

theorem pins_takes (p : PackedBits) : ((p.takes regs image).map (·.pin)).Sublist p.pinRefs := by
  rw [takes]
  cases regs.offset? p.entry with
  | none => exact List.nil_sublist _
  | some o =>
    dsimp only
    rw [List.map_map]
    exact List.Sublist.refl _

end PackedBits

namespace Rig

def takes (r : Rig) : List Reading :=
  r.channels.flatMap (·.takes regs image) ++ r.inputs.flatMap (·.takes regs image)

/-- The lines come after all channels. -/
theorem read_eq (r : Rig) (pins : PinTable) :
    r.read regs image pins = Reading.applyAll (r.takes regs image) pins := by
  have hchannels (cs : List Axis.Channel) (t : PinTable) :
      cs.foldl (fun t c => c.read regs image t) t =
        Reading.applyAll (cs.flatMap (·.takes regs image)) t := by
    induction cs generalizing t with
    | nil => rfl
    | cons c cs ih =>
      rw [List.foldl_cons, ih, Axis.Channel.read_eq, List.flatMap_cons, Reading.applyAll_append]
  have hlines (ps : List PackedBits) (t : PinTable) :
      ps.foldl (PackedBits.read regs image) t =
        Reading.applyAll (ps.flatMap (·.takes regs image)) t := by
    induction ps generalizing t with
    | nil => rfl
    | cons p ps ih =>
      rw [List.foldl_cons, ih, PackedBits.read_eq, List.flatMap_cons, Reading.applyAll_append]
  rw [read, hchannels, hlines, takes, Reading.applyAll_append]

theorem pins_takes (r : Rig) : ((r.takes regs image).map (·.pin)).Sublist r.pinRefs := by
  rw [takes, pinRefs_eq, lineRefs, List.map_append, List.map_flatMap, List.map_flatMap,
    List.flatMap_append]
  refine List.Sublist.append (List.Sublist.flatMap_right _ fun c _ => ?_)
    ((List.Sublist.flatMap_right _ fun p _ => p.pins_takes regs image).trans
      (List.sublist_append_left _ _))
  refine (c.pins_takes regs image).trans (.cons _ (.cons_cons _ ?_))
  rw [List.map_append, List.append_assoc]
  exact List.sublist_append_left _ _

end Rig

end ServoBus
