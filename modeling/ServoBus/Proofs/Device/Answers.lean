import ServoBus.Device.Registry
import ServoBus.Proofs.Axis.Answers

/-!
# Devices depend on the answers of the master alone

The setup of a device talks about its own slave only. If another master answers alike, it makes
the same calls and comes to a rig that looks the same.
-/

namespace ServoBus

open Setup (Agrees)

variable {μ ν : Type} [Master μ] [Master ν] {F : Focus} {site : Site}

/-- What is seen of a rig. -/
def Rig.seen (F : Focus) (rig : Rig) : Rig := { rig with channels := rig.channels.map (·.seen F) }

theorem Rig.seen_sharp (rig : Rig) : rig.seen .sharp = rig := by
  have hid : (fun c : Axis.Channel => c.seen .sharp) = id := funext Axis.Channel.seen_sharp
  rw [seen, hid, List.map_id]

namespace Generic

theorem agrees_apply (o : Axis.Options) (p : Param.Setting) :
    Agrees (MasterCall.Prepares site.position) F id (apply (μ := Traced μ) site o p)
      (apply (μ := ν) site o p) := by
  unfold apply
  split
  · exact Setup.agrees_ofChecked _
  · refine Axis.agrees_applySetting?.bind_id fun o? => ?_
    split
    · exact Setup.agrees_pure rfl
    · exact Setup.agrees_ofChecked _

theorem agrees_setUp (settings : List Param.Setting) :
    Agrees (MasterCall.Prepares site.position) F (Rig.seen F)
      (setUp (μ := Traced μ) site settings) (setUp (μ := ν) site settings) := by
  have hsetUp : Agrees (μ := μ) (ν := ν) (MasterCall.Prepares site.position) F (Rig.seen F)
      (do
        let o ← settings.foldlM (apply site) initialOptions
        let channels ← Axis.configure site o.numberLabels
        pure { channels })
      (do
        let o ← settings.foldlM (apply site) initialOptions
        let channels ← Axis.configure site o.numberLabels
        pure { channels }) := by
    refine (Setup.agrees_foldlM agrees_apply _ _).bind_id fun o => ?_
    refine (Axis.agrees_configure _).bind fun cs cs' hcs => Setup.agrees_pure ?_
    simp only [Rig.seen, hcs]
  unfold setUp
  split
  · exact (Setup.agrees_lift _).bind_id fun _ => (Setup.agrees_throw _).bind_id fun _ => hsetUp
  · exact hsetUp

end Generic

namespace Stepper

theorem agrees_applyAxis (p : Param.Setting) (q : AxisParam) :
    Agrees (MasterCall.Prepares site.position) F id (applyAxis (μ := Traced μ) site p q)
      (applyAxis (μ := ν) site p q) := by
  unfold applyAxis
  cases q with
  | peakCurrentCoarse => exact Setup.agrees_writeParam _ _ _
  | peakCurrentFine => exact Setup.agrees_writeParam _ _ _
  | controlMode =>
    dsimp only
    split
    · exact Setup.agrees_writeParam _ _ _
    · exact Setup.agrees_ofChecked _

theorem agrees_apply (o : Axis.Options) (p : Param.Setting) :
    Agrees (MasterCall.Prepares site.position) F id (apply (μ := Traced μ) site o p)
      (apply (μ := ν) site o p) := by
  unfold apply
  split
  · exact (agrees_applyAxis _ _).bind_id fun _ => Setup.agrees_pure rfl
  · refine Axis.agrees_applySetting?.bind_id fun o? => ?_
    split
    · exact Setup.agrees_pure rfl
    · exact Setup.agrees_ofChecked _

variable {P : MasterCall → Prop}

theorem agrees_addLines (label : String) (direction : Pin.Direction)
    (lines : List (String × Nat)) :
    Agrees P F id (addLines (μ := Traced μ) site label direction lines)
      (addLines (μ := ν) site label direction lines) := by
  induction lines with
  | nil => exact Setup.agrees_pure rfl
  | cons line lines ih =>
    exact (Setup.agrees_addPin _ _ _ _).bind_id fun _ =>
      ih.bind_id fun _ => Setup.agrees_pure rfl

theorem agrees_addPacked (label : String) (direction : Pin.Direction)
    (lines : List (String × Nat)) ( entry? : Option RegRef) :
    Agrees P F id (addPacked (μ := Traced μ) site label direction lines entry?)
      (addPacked (μ := ν) site label direction lines entry?) := by
  cases entry? with
  | none => exact Setup.agrees_pure rfl
  | some entry => exact (agrees_addLines _ _ _).bind_id fun _ => Setup.agrees_pure rfl

/-- The entries of channels that look the same are the same. -/
theorem agrees_addChannelLines {rig rig' : Rig} (hrig : rig'.seen F = rig.seen F)
    {l l' : List (Axis.Channel × Axis.ChannelOptions)}
    (hl : l'.map (Prod.map (Axis.Channel.seen F) id) =
      l.map (Prod.map (Axis.Channel.seen F) id)) :
    Agrees P F (Rig.seen F) (addChannelLines (μ := Traced μ) site rig l)
      (addChannelLines (μ := ν) site rig' l') := by
  induction l generalizing rig rig' l' with
  | nil =>
    obtain rfl := List.map_eq_nil_iff.1 hl
    exact Setup.agrees_pure hrig
  | cons x l ih =>
    obtain ⟨x', l₂, rfl, hx, hrest⟩ := List.map_eq_cons_iff.1 hl
    obtain ⟨c, o⟩ := x
    obtain ⟨c', o'⟩ := x'
    obtain ⟨hc, rfl⟩ := Prod.mk.inj hx
    have hentry (f : Feature) : c'.entry? f = c.entry? f := by
      rw [← c'.entry?_seen F, hc, c.entry?_seen F]
    rw [addChannelLines, addChannelLines, hentry, hentry]
    refine (agrees_addPacked _ _ _ _).bind_id fun inputs => ?_
    refine (agrees_addPacked _ _ _ _).bind_id fun outputs => ?_
    refine ih ?_ hrest
    simp only [Rig.seen, Rig.mk.injEq] at hrig ⊢
    exact ⟨hrig.1, by rw [hrig.2.1], by rw [hrig.2.2]⟩

theorem agrees_setUp (t : DeviceType) (settings : List Param.Setting) :
    Agrees (MasterCall.Prepares site.position) F (Rig.seen F)
      (setUp (μ := Traced μ) t site settings) (setUp (μ := ν) t site settings) := by
  refine (Setup.agrees_foldlM agrees_apply _ _).bind_id fun o => ?_
  refine (Axis.agrees_configure _).bind fun cs cs' hcs => ?_
  apply agrees_addChannelLines
  · simp only [Rig.seen, hcs]
  · rw [← List.zip_map_left, ← List.zip_map_left, hcs]

end Stepper

theorem DeviceType.agrees_setUp (t : DeviceType) (site : Site) (settings : List Param.Setting) :
    Agrees (MasterCall.Prepares site.position) F (Rig.seen F)
      (t.setUp (μ := Traced μ) site settings) (t.setUp (μ := ν) site settings) := by
  unfold DeviceType.setUp
  split
  · exact Generic.agrees_setUp settings
  · exact Stepper.agrees_setUp t settings

end ServoBus
