import ServoBus.Proofs.Pin.Table
import ServoBus.Proofs.Registration.Register
import ServoBus.Setup

/-!
# What steps of the setup do to the workspace

Most steps of the setup of a slave ask the master for something or add pins. What is known of
such steps is a relation that admits both, so it holds along everything that is made of them.
Along such steps the registered entries stay the same and the pins grow, which is `Decorates`.
What was made before them stays good.
-/

namespace ServoBus.Setup

open ServoBus.Action (Moves Keeps)

variable {μ α : Type}

/-- Pins may be added along this relation, and pins may get other values. -/
class AdmitsPins (R : Workspace μ → Workspace μ → Prop) : Prop where
  pins : ∀ (w : Workspace μ) (t : PinTable), w.pins.Grows t → R w { w with pins := t }

/-- The master may be asked for contents of objects and for requests along this relation. -/
class AdmitsAsking [Master μ] (R : Workspace μ → Workspace μ → Prop) : Prop where
  upload : ∀ (w : Workspace μ) (slave : Position) (a : ObjectAddress) (length : Nat),
    R w { w with master := (Master.upload slave a length w.master).2 }
  createRequest : ∀ (w : Workspace μ) (slave : Position) (a : ObjectAddress) (length : Nat),
    R w { w with master := (Master.createRequest slave a length w.master).2 }

/-- No entry was registered or changed, and pins were at most added. -/
def Decorates (w w' : Workspace μ) : Prop := w'.regs = w.regs ∧ w.pins.Grows w'.pins

instance : IsPreorder (Workspace μ) Decorates where
  refl w := ⟨rfl, refl_of PinTable.Grows w.pins⟩
  trans _ _ _ h h' := ⟨h'.1.trans h.1, trans_of PinTable.Grows h.2 h'.2⟩

/-- Everything but the master. -/
def made (w : Workspace μ) : Sync.Builder × Registrations × PinTable := (w.syncs, w.regs, w.pins)

theorem decorates_of_made_eq {w w' : Workspace μ} (h : made w' = made w) : Decorates w w' := by
  simp only [made, Prod.mk.injEq] at h
  refine ⟨h.2.1, ?_⟩
  rw [h.2.2]
  exact refl_of PinTable.Grows w.pins

instance : AdmitsPins (Decorates (μ := μ)) where
  pins _ _ h := ⟨rfl, h⟩

instance [Master μ] : AdmitsAsking (Decorates (μ := μ)) where
  upload _ _ _ _ := decorates_of_made_eq rfl
  createRequest _ _ _ _ := decorates_of_made_eq rfl

instance [Master μ] : AdmitsAsking (Action.Same (made (μ := μ))) where
  upload _ _ _ _ := rfl
  createRequest _ _ _ _ := rfl

theorem keeps_onMaster (step : μ → Except Fault α × μ) : Keeps made (onMaster step) :=
  Action.keeps_zoom _ fun _ _ => rfl

section Pins

variable {R : Workspace μ → Workspace μ → Prop} [AdmitsPins R]

theorem moves_onPins {x : Action PinTable α} (hx : Moves PinTable.Grows x) :
    Moves R (onPins x) :=
  hx.zoom AdmitsPins.pins

theorem moves_addPin (site : Site) (label? : Option String) (name : String) (kind : Pin.Kind)
    (direction : Pin.Direction) : Moves R (addPin site label? name kind direction) :=
  moves_onPins (PinTable.moves_add _ _ _)

theorem moves_putPin (ref : PinRef) (v : Pin.Value) : Moves R (putPin ref v) :=
  moves_onPins fun t => .of_shapes_eq (t.shapes_put ref v)

end Pins

theorem of_result_addPin {site : Site} {label? : Option String} {name : String}
    {kind : Pin.Kind} {direction : Pin.Direction} {w w' : Workspace μ} {ref : PinRef}
    (h : (addPin site label? name kind direction).result w = (.ok ref, w')) :
    w'.pins.Has ref ⟨Pin.fullName site.master site.slave label? name, direction, kind⟩ := by
  obtain ⟨t, ht, rfl⟩ := Action.result_zoom_eq_ok_iff.1 h
  obtain ⟨-, rfl, rfl⟩ := PinTable.result_add_eq_ok_iff.1 ht
  exact PinTable.has_push ..

section Objects

variable [Master μ]

section Asking

variable {R : Workspace μ → Workspace μ → Prop} [AdmitsAsking R]

theorem moves_createRequest (slave : Position) (a : ObjectAddress) (length : Nat) :
    Moves R (onMaster (Master.createRequest slave a length)) :=
  fun w => AdmitsAsking.createRequest w slave a length

variable [IsPreorder (Workspace μ) R]

theorem moves_readObject (site : Site) (a : ObjectAddress) (length : Nat) :
    Moves R (readObject site a length) := by
  have hupload : Moves R (onMaster (Master.upload site.position a length)) :=
    fun w => AdmitsAsking.upload w site.position a length
  refine (hupload.noting _).bind ?_
  intro content
  split
  · exact (Action.moves_lift _).bind fun _ => (Action.moves_throw _).bind fun _ =>
      Action.moves_pure content
  · exact Action.moves_pure content

theorem moves_readWord32 (site : Site) (a : ObjectAddress) : Moves R (readWord32 site a) :=
  (moves_readObject site a 4).map _

end Asking

theorem keeps_writeParam (site : Site) (a : ObjectAddress) (content : Bytes) (param : String) :
    Keeps (made (μ := μ)) (writeParam site a content param) := by
  apply Action.Moves.noting
  apply Action.Moves.noting
  exact (keeps_onMaster _).bind fun _ => keeps_onMaster _

end Objects

end ServoBus.Setup
