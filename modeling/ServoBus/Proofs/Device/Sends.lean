import ServoBus.Proofs.Image.Assign
import ServoBus.Proofs.Master
import ServoBus.Slave

/-!
# What a slave sends

All that the output half of a cycle does to the image is a list of assignments, which
depends on the entries and on the pins of the slave, but not on the image. The writers of
a rig wait for the slave and start requests in between, which a master with orderly requests
keeps out of the image.
-/

namespace ServoBus

namespace Axis.Channel

/-- The assignment that sends a mapped object. -/
def sendMapped? (regs : Registrations) (pins : PinTable) (m : Mapped) : Option Assignment :=
  (regs.offset? m.entry).map fun o => ⟨⟨o, m.format.width⟩, pins.raw m.pin⟩

def sends (c : Channel) (regs : Registrations) (pins : PinTable) : List Assignment :=
  (c.control :: c.outputs.map (·.2)).filterMap (sendMapped? regs pins)

theorem writeImage_eq (c : Channel) (regs : Registrations) (pins : PinTable) (image : Bytes) :
    c.writeImage regs pins image = Assignment.applyAll (c.sends regs pins) image := by
  rw [writeImage, sends, Assignment.applyAll, List.foldl_filterMap]
  congr 1
  funext im m
  rw [writeMapped, sendMapped?]
  cases regs.offset? m.entry with
  | none => rfl
  | some o => rfl

end Axis.Channel

namespace PackedBits

/-- The assignment that sends a bit. -/
def sendBit (o : Offset) (pins : PinTable) (bit : Nat × PinRef) : Assignment :=
  ⟨bitField (o.shift bit.1), if pins.raw bit.2 != 0 then 1 else 0⟩

def sends (p : PackedBits) (regs : Registrations) (pins : PinTable) : List Assignment :=
  match regs.offset? p.entry with
  | some o => p.bits.map (sendBit o pins)
  | none => []

theorem write_eq (p : PackedBits) (regs : Registrations) (pins : PinTable) (image : Bytes) :
    p.write regs pins image = Assignment.applyAll (p.sends regs pins) image := by
  rw [write, sends]
  cases regs.offset? p.entry with
  | none => rfl
  | some o =>
    dsimp only
    rw [Assignment.applyAll, List.foldl_map]
    rfl

end PackedBits

namespace Rig

def sends (r : Rig) (regs : Registrations) (pins : PinTable) : List Assignment :=
  r.channels.flatMap (·.sends regs pins) ++ r.outputs.flatMap (·.sends regs pins)

end Rig

section Master

variable {μ : Type} [Master μ] (hμ : Master.Orderly μ)

include hμ

theorem Writer.image_send (w : Writer) (value : Int) (m : μ) :
    Master.image (w.send value m).2 = Master.image m := by
  unfold send
  split
  · rfl
  · exact hμ.image_startWrite _ _ _

theorem Writer.image_write (w : Writer) (value : Int) (m : μ) :
    Master.image (w.write value m).value.2 = Master.image m := by
  have hstate := hμ.image_requestState w.request m
  unfold write
  split
  · split
    · next heq =>
      rw [heq] at hstate
      exact hstate
    · next heq =>
      rw [heq] at hstate
      exact (image_send hμ _ _ _).trans hstate
    · next heq =>
      rw [heq] at hstate
      exact hstate
  · exact image_send hμ _ _ _

theorem Axis.Channel.image_serve (pins : PinTable) (services : List Served) (m : μ) :
    Master.image (serve pins services m).value.2 = Master.image m := by
  induction services generalizing m with
  | nil => rfl
  | cons s rest ih =>
    rw [serve]
    simp only [Logged.value_bind, Logged.value_pure]
    exact (ih _).trans (Writer.image_write hμ _ _ _)

theorem Axis.Channel.image_write (c : Channel) (regs : Registrations) (pins : PinTable) (m : μ) :
    Master.image (c.write regs pins m).value.2 =
      Assignment.applyAll (c.sends regs pins) (Master.image m) := by
  rw [write]
  simp only [Logged.value_bind, Logged.value_pure]
  rw [image_serve hμ, hμ.image_mapImage (c.length_writeImage regs pins), writeImage_eq]

theorem Rig.image_writeChannels (regs : Registrations) (pins : PinTable)
    (cs : List Axis.Channel) (m : μ) :
    Master.image (writeChannels regs pins cs m).value.2 =
      Assignment.applyAll (cs.flatMap (·.sends regs pins)) (Master.image m) := by
  induction cs generalizing m with
  | nil => rfl
  | cons c cs ih =>
    rw [writeChannels]
    simp only [Logged.value_bind, Logged.value_pure]
    rw [ih, Axis.Channel.image_write hμ, List.flatMap_cons, Assignment.applyAll_append]

/-- The bits of packed objects come after all channels. -/
theorem Rig.image_write (r : Rig) (regs : Registrations) (pins : PinTable) (m : μ) :
    Master.image (r.write regs pins m).value.2 =
      Assignment.applyAll (r.sends regs pins) (Master.image m) := by
  have hbits (ps : List PackedBits) (image : Bytes) :
      ps.foldl (PackedBits.write regs pins) image =
        Assignment.applyAll (ps.flatMap (·.sends regs pins)) image := by
    induction ps generalizing image with
    | nil => rfl
    | cons p ps ih =>
      rw [List.foldl_cons, ih, PackedBits.write_eq, List.flatMap_cons, Assignment.applyAll_append]
  rw [write]
  simp only [Logged.value_bind, Logged.value_pure]
  rw [hμ.image_mapImage, image_writeChannels hμ, hbits, sends, Assignment.applyAll_append]
  intro image
  rw [hbits, Assignment.length_applyAll]

end Master

namespace Slave

/-- What the slave sends in a cycle. -/
def sends (s : Slave) : List Assignment :=
  match s.cyclic? with
  | some rig => rig.sends s.regs s.pins
  | none => []

theorem image_write {μ : Type} [Master μ] (hμ : Master.Orderly μ) (s : Slave) (m : μ) :
    Master.image (s.write m).value.2 = Assignment.applyAll s.sends (Master.image m) := by
  unfold write sends
  cases s.cyclic? with
  | none => rfl
  | some rig => exact rig.image_write hμ s.regs s.pins m

theorem pins_write {μ : Type} [Master μ] (s : Slave) (m : μ) :
    (s.write m).value.1.pins = s.pins := by
  unfold write
  cases s.cyclic? with
  | none => rfl
  | some rig => rfl

end Slave

end ServoBus
