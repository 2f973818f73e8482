import ServoBus.Proofs.Axis.Mapping
import ServoBus.Proofs.Device.Wired

/-!
# What the setup of a device makes

Starting from an empty description, a device of any type that was set up has the sync managers
and the entries that some options of axes lead to. Neither parameters nor lines add to them.
-/

namespace ServoBus

open ServoBus.Action (Keeps)

variable {μ : Type}

/-- Sync managers and entries. -/
def Setup.mapped (w : Workspace μ) : Sync.Builder × Registrations := (w.syncs, w.regs)

instance : Setup.AdmitsPins (Action.Same (Setup.mapped (μ := μ))) where
  pins _ _ _ := rfl

variable [Master μ] {site : Site} {device : String} {w w₁ w' : Workspace μ}

/-- The axes are configured behind settings that made nothing. -/
theorem Axis.mapped_of_result_configure {o : Axis.Options} {cs : List Axis.Channel}
    (hsyncs : w.syncs = ⟨device, [], false⟩) (hmade : Action.Same Setup.made w w₁)
    (h : (Axis.configure site o).result w₁ = (.ok cs, w')) :
    w'.syncs = .ofWire device false (Layout.wiring o) ∧
      w'.regs = w.regs.extend (driveEntries site o.active.zipIdx) := by
  simp only [Action.Same, Setup.made, Prod.mk.injEq] at hmade
  have hbuild := result_build_of_configure h
  rw [hmade.1, hsyncs] at hbuild
  have hvalid : (o.validate device).outcome = .ok () := by
    obtain ⟨_, _, hv, -⟩ := Action.result_bind_eq_ok_iff.1 h
    have hv := (Action.result_ofChecked_eq_ok_iff.1 hv).1
    exact Options.validate_eq_ok_iff.2 (Options.validate_eq_ok_iff.1 hv)
  refine ⟨((Layout.result_build_eq_ok_iff hvalid).1 hbuild).2, ?_⟩
  rw [← hmade.2.1]
  exact (of_result_configure h).2.1

theorem DeviceType.exists_mapped_of_result_setUp (device : String) {t : DeviceType}
    {settings : List Param.Setting} {rig : Rig} (hsyncs : w.syncs = ⟨device, [], false⟩)
    (h : (t.setUp site settings).result w = (.ok rig, w')) :
    ∃ o : Axis.Options, w'.syncs = .ofWire device false (Axis.Layout.wiring o) ∧
      w'.regs = w.regs.extend (Axis.driveEntries site o.active.zipIdx) := by
  rcases DeviceType.cases_of_result_setUp h with ⟨-, h⟩ | ⟨-, h⟩
  · obtain ⟨o, w₁, cs, ho, hcs, -⟩ := Generic.exists_of_result_setUp h
    have hmade := (Action.Moves.foldlM Generic.keeps_apply settings _).of_result ho
    exact ⟨_, Axis.mapped_of_result_configure hsyncs hmade hcs⟩
  · obtain ⟨o, w₁, cs, w₂, ho, hcs, hlines⟩ := Stepper.exists_of_result_setUp h
    have hmade := (Action.Moves.foldlM Stepper.keeps_apply settings _).of_result ho
    -- Lines are pins, so they leave what the axes mapped.
    have hkeep : Action.Same Setup.mapped w₂ w' :=
      (Stepper.moves_addChannelLines _ _).of_result hlines
    simp only [Action.Same, Setup.mapped, Prod.mk.injEq] at hkeep
    rw [hkeep.1, hkeep.2]
    exact ⟨_, Axis.mapped_of_result_configure hsyncs hmade hcs⟩

end ServoBus
