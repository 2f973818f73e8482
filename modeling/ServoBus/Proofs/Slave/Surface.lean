import ServoBus.Proofs.Device.PinNames
import ServoBus.Proofs.Slave.Handled

/-!
# The pins of a slave

An activation that succeeds leaves exactly the surface of the device, for the features that the
settings of the slave ask for on each axis. An activation never fails because of a pin whose name
is taken, unless the master gives this fault itself.
-/

namespace ServoBus

open ServoBus.Action (FailsWith)

variable {μ : Type} [Master μ] {site : Site}

section Faults

theorem Fault.OfSettingOrGiven.notDuplicate {slave : Position} {e : Fault}
    (h : e.OfSettingOrGiven μ slave) : e.NotDuplicate μ slave := by
  rcases h with h | h
  · rintro ⟨name, rfl⟩
    exact h.elim
  · exact fun _ => h

end Faults

namespace Slave

/-- The pins of a slave after an activation that succeeded. -/
theorem exists_rig_of_activate {s s' : Slave} {m m' : μ}
    (h : (s.activate m).value = (.ok (), s', m')) :
    ∃ rig o w, s'.rig? = some rig ∧
      (s.settings.foldlM (s.type.apply s.site) s.type.initialOptions).result (s.start m) =
        (.ok o, w) ∧
      rig.channels.map (·.enabled) = o.active.map (·.requested.resolve) ∧
      s'.pins.shapes = s.type.surface s.site (o.active.map (·.requested.resolve)) ∧
      s'.pins.names.Nodup := by
  have hsound := s.sound_activate m
  rw [h] at hsound
  rw [value_activate] at h
  split at h
  · next rig w hset =>
    cases h
    obtain ⟨w₁, managers, w₂, hdevice, hconf, hlocate⟩ := exists_of_result_setUp hset
    obtain ⟨o, w₃, ho, henabled, hshapes⟩ := DeviceType.surface_of_result_setUp hdevice
    refine ⟨rig, o, w₃, rfl, ho, henabled, ?_, (hsound rig rfl).1.names⟩
    have hmade := (Setup.keeps_onMaster _).of_result hconf
    simp only [Action.Same, Setup.made, Prod.mk.injEq] at hmade
    obtain ⟨x, -, rfl⟩ := Action.result_zoom_eq_ok_iff.1 hlocate
    show w₂.pins.shapes = _
    rw [hmade.2.2, hshapes]
    rfl
  · cases h

end Slave

end ServoBus
