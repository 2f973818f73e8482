import ServoBus.Proofs.Action.Failure
import ServoBus.Proofs.Axis.Maps
import ServoBus.Proofs.Device.Declared

/-!
# The steps of setting up a device

A device of either family is set up in the same steps: the site may be refused, the settings are
applied one after the other to the options that the type starts from, the channels are configured,
and in the end the lines get their pins if the family has any.
-/

namespace ServoBus.DeviceType

variable {μ : Type}

/-- The options that the settings of a slave are applied to. -/
def initialOptions (t : DeviceType) : Axis.Options :=
  match t.family with
  | .generic => Generic.initialOptions
  | .stepper => Stepper.initialOptions t.axes t.digitalInputs t.digitalOutputs

/-- Refuses a slave that needs an identity of its own and has none. -/
def checkIdentity (t : DeviceType) (site : Site) : Setup μ Unit :=
  match t.family with
  | .generic =>
    if site.identity.vendor = Generic.noIdentity ∨ site.identity.product = Generic.noIdentity then
      throw (.misconfigured site.device .noIdentity)
    else pure ()
  | .stepper => pure ()

theorem eq_of_result_checkIdentity {t : DeviceType} {site : Site} {w w' : Workspace μ}
    (h : (t.checkIdentity site).result w = (.ok (), w')) : w' = w := by
  unfold checkIdentity at h
  split at h
  · split at h <;> cases h
    rfl
  · cases h
    rfl

/-- The last step, which makes the rig. -/
def addLines (t : DeviceType) (site : Site) (cs : List Axis.Channel)
    (active : List Axis.ChannelOptions) : Setup μ Rig :=
  match t.family with
  | .generic => pure { channels := cs }
  | .stepper => Stepper.addChannelLines site { channels := cs } (cs.zip active)

theorem failsWith_checkIdentity {t : DeviceType} (site : Site) :
    Action.FailsWith Fault.OfLayout (t.checkIdentity site : Setup μ Unit) := by
  unfold checkIdentity
  split
  · split
    · exact Action.failsWith_throw trivial
    · exact Action.failsWith_pure ()
  · exact Action.failsWith_pure ()

section Apply

variable [Master μ] {t : DeviceType}

theorem apply_eq_generic (h : t.family = .generic) : t.apply (μ := μ) = Generic.apply := by
  funext site o p
  rw [apply, h]

theorem apply_eq_stepper (h : t.family = .stepper) : t.apply (μ := μ) = Stepper.apply := by
  funext site o p
  rw [apply, h]

end Apply

theorem result_setUp [Master μ] (t : DeviceType) (site : Site) (settings : List Param.Setting)
    (w : Workspace μ) :
    (t.setUp site settings).result w =
      Action.result (do
        t.checkIdentity site
        let o ← settings.foldlM (t.apply site) t.initialOptions
        let cs ← Axis.configure site o.numberLabels
        t.addLines site cs o.numberLabels.active) w := by
  cases hfamily : t.family with
  | generic =>
    simp only [setUp, checkIdentity, initialOptions, addLines, apply_eq_generic hfamily, hfamily,
      Generic.setUp]
    split
    · rfl
    · rfl
  | stepper =>
    simp only [setUp, checkIdentity, initialOptions, addLines, apply_eq_stepper hfamily, hfamily]
    rfl

end ServoBus.DeviceType
