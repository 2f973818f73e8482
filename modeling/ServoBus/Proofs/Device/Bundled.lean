import ServoBus.Device.Registry

/-!
# The device types that come with the library

They are computed from their declarations, which can fail in general, but does not for
those that come with the library. Facts about all of them are decided by looking at each.
-/

namespace ServoBus

namespace Registry

/-- All device types of the registry come with the library. -/
def Bundled (r : Registry) : Prop := ∃ types, builtin = .ok types ∧ r.types ⊆ types

/-- The registry that has all of them. -/
def bundled : Registry := standard.outcome.toOption.getD {}

theorem bundled_bundled : bundled.Bundled := by
  cases h : builtin with
  | error e =>
    have hok : builtin.isOk = true := by decide +kernel
    rw [h] at hok
    cases hok
  | ok types =>
    refine ⟨types, h, ?_⟩
    have hsub : (builtin.toOption.all fun types =>
        bundled.types.all (types.contains ·)) = true := by decide +kernel
    rw [h] at hsub
    intro t ht
    exact List.contains_iff_mem.1 (List.all_eq_true.1 hsub t ht)

/-- What can be decided for all device types of the library holds of a bundled one. -/
theorem Bundled.of_all {r : Registry} (hr : r.Bundled) {p : DeviceType → Bool}
    (h : (builtin.toOption.all fun types => types.all p) = true) {t : DeviceType}
    (ht : t ∈ r.types) : p t = true := by
  obtain ⟨types, hbuiltin, hsub⟩ := hr
  rw [hbuiltin] at h
  exact List.all_eq_true.1 h t (hsub ht)

/-- No device has more output lines than an object of 32 bits has behind its lower half. -/
theorem Bundled.digitalOutputs_le {r : Registry} (hr : r.Bundled) {t : DeviceType}
    (ht : t ∈ r.types) : t.digitalOutputs ≤ 16 :=
  of_decide_eq_true (hr.of_all (p := (·.digitalOutputs ≤ 16)) (by decide +kernel) ht)

/-- There are not more input lines either. -/
theorem Bundled.digitalInputs_le {r : Registry} (hr : r.Bundled) {t : DeviceType}
    (ht : t ∈ r.types) : t.digitalInputs ≤ 16 :=
  of_decide_eq_true (hr.of_all (p := (·.digitalInputs ≤ 16)) (by decide +kernel) ht)

end Registry

end ServoBus
