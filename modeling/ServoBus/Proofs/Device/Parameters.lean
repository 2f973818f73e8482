import ServoBus.Device.Registry
import ServoBus.Proofs.Param.Names

/-!
# Parameters of devices

A setting is about a parameter, and about a channel if the parameter has any. Which ones is said
by its name: `ch2homeMethod` is about the homing method of the second channel, and a name
without a channel is about the first one. A setting is applied by its number, and
`DeviceType.apply_eq` says what the number leads to.
-/

namespace ServoBus

/-- What a setting can be about, without its channel. -/
inductive Parameter where
  /-- A parameter of a generic drive as a whole. -/
  | drive (q : Generic.DriveParam)
  /-- A parameter of an axis that only stepper drives have. -/
  | stepper (q : Stepper.AxisParam)
  | object (q : Axis.ObjectParam)
  | ratio (q : Axis.RatioParam)
  /-- Whether a feature is asked for. -/
  | enable (f : Feature)
deriving DecidableEq

namespace Parameter

def name : Parameter → String
  | drive .channels => "ciaChannels"
  | drive .outputLimit => "ciaRxPDOEntryLimit"
  | drive .inputLimit => "ciaTxPDOEntryLimit"
  | drive .increment => "pdoIncrement"
  | drive .autoflow => "pdoAutoflow"
  | drive .pdoLimit => "pdoLimit"
  | drive .pdoEntryLimit => "pdoEntryLimit"
  | stepper .peakCurrentCoarse | stepper .peakCurrentFine => "peakCurrent_amps"
  | stepper .controlMode => "controlMode"
  | object q => q.name
  | ratio q => q.name
  | enable f => f.configName

/-- The number of the parameter for its first channel. -/
def id : Parameter → UInt32
  | drive .channels => 0
  | drive .outputLimit => 1
  | drive .inputLimit => 2
  | drive .increment => 3
  | drive .autoflow => 4
  | drive .pdoLimit => 5
  | drive .pdoEntryLimit => 6
  | stepper q => q.id
  | object q => q.id
  | ratio q => q.id
  | enable f => Axis.enableParam f

@[simp] theorem id_object (q : Axis.ObjectParam) : (object q).id = q.id := rfl

@[simp] theorem id_ratio (q : Axis.RatioParam) : (ratio q).id = q.id := rfl

@[simp] theorem id_enable (f : Feature) : (enable f).id = Axis.enableParam f := rfl

def hasChannels : Parameter → Bool
  | drive _ => false
  | _ => true

/-- The parameters of an axis. -/
def axis : List Parameter :=
  Axis.objectParams.map object ++ Axis.ratioParams.map ratio ++ Feature.all.map enable

/-- Applies the parameter to a channel with the value of a setting. The number of the setting
is not looked at. -/
def apply {μ : Type} [Master μ] (q : Parameter) (site : Site) (channel : Fin Param.maxChannels)
    (o : Axis.Options) (p : Param.Setting) : Setup μ Axis.Options :=
  let p : Param.Setting := { p with id := UInt32.ofNat channel }
  match q with
  | drive q => Action.ofChecked (Generic.applyDrive site o p q)
  | stepper q => do
    Stepper.applyAxis site p q
    pure o
  | object q => Axis.applyObject site o p q
  | ratio q => do
    Axis.applyRatio site p q
    pure o
  | enable f =>
    pure (o.modifyChannel channel fun c =>
      { c with requested := c.requested.assign f p.value.asBool })

end Parameter

/-- The parameters that devices of a family can have. -/
def Family.parameters : Family → List Parameter
  | .generic =>
    [.channels, .outputLimit, .inputLimit, .increment, .autoflow, .pdoLimit, .pdoEntryLimit].map
      Parameter.drive ++ Parameter.axis
  | .stepper =>
    [.peakCurrentCoarse, .peakCurrentFine, .controlMode].map Parameter.stepper ++ Parameter.axis

theorem Family.axis_subset (family : Family) : Parameter.axis ⊆ family.parameters := by
  cases family <;> exact List.subset_append_right ..

namespace DeviceType

/-- The name denotes a parameter that the device type declares, and a channel. -/
structure Denotes (t : DeviceType) (name : String) (q : Parameter)
    (channel : Fin Param.maxChannels) : Prop where
  mem : q ∈ t.family.parameters
  declared : ∃ d ∈ t.declarations, d.name = q.name ∧ d.id = q.id
  name_eq : name = q.name ∧ channel.val = 0 ∨
    q.hasChannels = true ∧ name = s!"ch{channel.val + 1}{q.name}"

/-- Applies a setting. -/
def apply {μ : Type} [Master μ] (t : DeviceType) (site : Site) (o : Axis.Options)
    (p : Param.Setting) : Setup μ Axis.Options :=
  match t.family with
  | .generic => Generic.apply site o p
  | .stepper => Stepper.apply site o p

end DeviceType

/-! ## Numbers -/

namespace Parameter

theorem id_mod_of_mem_axis : ∀ q ∈ axis, q.id.toNat % Param.maxChannels = 0 := by
  decide +kernel

theorem firstParam_le_of_mem_axis : ∀ q ∈ axis, Axis.firstParam ≤ q.id := by
  decide +kernel

theorem firstParam_le_id_add {q : Parameter} (hq : q ∈ axis) (channel : Fin Param.maxChannels) :
    Axis.firstParam ≤ q.id + UInt32.ofNat channel := by
  have hle := UInt32.le_iff_toNat_le.1 (firstParam_le_of_mem_axis q hq)
  rw [UInt32.le_iff_toNat_le, Param.toNat_add_channel (id_mod_of_mem_axis q hq)]
  exact Nat.le_trans hle (Nat.le_add_right ..)

theorem nodup_ids (family : Family) : (family.parameters.map id).Nodup := by
  cases family <;> decide +kernel

theorem eq_of_id_eq {family : Family} {q q' : Parameter} (hq : q ∈ family.parameters)
    (hq' : q' ∈ family.parameters) (h : q.id = q'.id) : q = q' :=
  List.inj_on_of_nodup_map (nodup_ids family) hq hq' h

/-! ## Handlers -/

section Handlers

variable {μ : Type} [Master μ] {site : Site} {o : Axis.Options} {p : Param.Setting}
variable {channel : Fin Param.maxChannels}

theorem applyObject_eq (hchannel : Param.channelOf p.id = channel) (q : Axis.ObjectParam) :
    Axis.applyObject (μ := μ) site o p q = (object q).apply site channel o p := by
  simp only [apply, Axis.applyObject, hchannel, Param.channelOf_ofNat]

theorem applyRatio_eq (hchannel : Param.channelOf p.id = channel) (q : Axis.RatioParam) :
    (do
      Axis.applyRatio (μ := μ) site p q
      pure o) = (ratio q).apply site channel o p := by
  simp only [apply, Axis.applyRatio, hchannel, Param.channelOf_ofNat]

theorem applyAxis_eq (hchannel : Param.channelOf p.id = channel) (q : Stepper.AxisParam) :
    (do
      Stepper.applyAxis (μ := μ) site p q
      pure o) = (stepper q).apply site channel o p := by
  simp only [apply, Stepper.applyAxis, hchannel, Param.channelOf_ofNat]

/-- The tables hold one parameter for each of their numbers. -/
theorem find?_objectParams : ∀ q ∈ Axis.objectParams,
    Axis.objectParams.find? (·.id == q.id) = some q := by
  decide +kernel

theorem find?_ratioParams : ∀ q ∈ Axis.ratioParams,
    Axis.ratioParams.find? (·.id == q.id) = some q ∧
      Axis.objectParams.find? (·.id == q.id) = none := by
  decide +kernel

theorem enabledBy?_enableParam (f : Feature) : Axis.enabledBy? (Axis.enableParam f) = some f := by
  have hall : ∀ f ∈ Feature.all, Axis.enabledBy? (Axis.enableParam f) = some f := by
    decide +kernel
  exact hall f f.mem_all

/-- A setting with the number of a parameter of axes for a channel is applied as that
parameter to that channel. -/
theorem applySetting?_eq {q : Parameter} (hq : q ∈ axis)
    (hid : p.id = q.id + UInt32.ofNat channel) :
    Axis.applySetting? (μ := μ) site o p = some <$> q.apply site channel o p := by
  have hmod := id_mod_of_mem_axis q hq
  have hchannel : Param.channelOf p.id = channel := by
    rw [hid, Param.channelOf_add hmod]
  have hcommon : Param.commonOf p.id = q.id := by
    rw [hid, Param.commonOf_add hmod]
  have hlow : ¬ p.id < Axis.firstParam := by
    rw [hid, UInt32.not_lt]
    exact firstParam_le_id_add hq channel
  unfold Axis.applySetting?
  rw [if_neg hlow, hcommon]
  -- the tables are told apart by the first number of a feature, and then by what they hold
  simp only [axis, List.mem_append, List.mem_map] at hq
  rcases hq with (⟨q, hq, rfl⟩ | ⟨q, hq, rfl⟩) | ⟨f, -, rfl⟩
  · have hhigh : ∀ q ∈ Axis.objectParams, ¬ Axis.firstEnable ≤ q.id := by decide +kernel
    rw [id_object, if_neg (hhigh q hq), find?_objectParams q hq, ← applyObject_eq hchannel]
  · have hhigh : ∀ q ∈ Axis.ratioParams, ¬ Axis.firstEnable ≤ q.id := by decide +kernel
    obtain ⟨hratio, hobject⟩ := find?_ratioParams q hq
    rw [id_ratio, if_neg (hhigh q hq), hratio, hobject, ← applyRatio_eq hchannel, map_bind]
    simp only [map_pure]
  · have hhigh : ∀ f ∈ Feature.all, Axis.firstEnable ≤ Axis.enableParam f := by decide +kernel
    rw [id_enable, if_pos (hhigh f f.mem_all), enabledBy?_enableParam, apply, map_pure, hchannel]

/-- The lowest number of a parameter of axes is above those of a drive as a whole. -/
theorem ofId?_drive_eq_none {id : UInt32} (h : Axis.firstParam ≤ id) :
    Generic.DriveParam.ofId? id = none := by
  have hle : Axis.firstParam.toNat ≤ id.toNat := UInt32.le_iff_toNat_le.1 h
  have hfirst : 7 ≤ Axis.firstParam.toNat := by decide
  exact List.getElem?_eq_none (Nat.le_trans hfirst hle)

theorem ofId?_stepper_eq_none : ∀ q ∈ axis, Stepper.AxisParam.ofId? q.id = none := by
  decide +kernel

theorem generic_apply_eq {q : Parameter} (hq : q ∈ Family.generic.parameters)
    (hchannel : q.hasChannels = true ∨ channel.val = 0)
    (hid : p.id = q.id + UInt32.ofNat channel) :
    Generic.apply (μ := μ) site o p = q.apply site channel o p := by
  unfold Generic.apply
  rcases List.mem_append.1 hq with hq | hq
  · obtain ⟨q, -, rfl⟩ := List.mem_map.1 hq
    -- the numbers of these parameters have no room for a channel
    have hzero : channel.val = 0 := by simpa [hasChannels] using hchannel
    have hofId : Generic.DriveParam.ofId? (drive q).id = some q := by
      cases q <;> rfl
    have hid : p.id = (drive q).id := by
      rw [hid, hzero]
      exact UInt32.add_zero _
    rw [hid, hofId]
    rfl
  · rw [hid, ofId?_drive_eq_none (firstParam_le_id_add hq channel), applySetting?_eq hq hid]
    simp only [map_eq_pure_bind, bind_assoc, pure_bind, bind_pure]

theorem stepper_apply_eq {q : Parameter} (hq : q ∈ Family.stepper.parameters)
    (hid : p.id = q.id + UInt32.ofNat channel) :
    Stepper.apply (μ := μ) site o p = q.apply site channel o p := by
  unfold Stepper.apply
  rcases List.mem_append.1 hq with hq | hq
  · obtain ⟨q, -, rfl⟩ := List.mem_map.1 hq
    have hmod : (stepper q).id.toNat % Param.maxChannels = 0 := by
      cases q <;> rfl
    have hofId : Stepper.AxisParam.ofId? (stepper q).id = some q := by
      cases q <;> rfl
    rw [hid, Param.commonOf_add hmod, hofId, ← applyAxis_eq]
    rw [hid, Param.channelOf_add hmod]
  · rw [hid, Param.commonOf_add (id_mod_of_mem_axis q hq), ofId?_stepper_eq_none q hq,
      applySetting?_eq hq hid]
    simp only [map_eq_pure_bind, bind_assoc, pure_bind, bind_pure]

end Handlers

end Parameter

theorem DeviceType.apply_eq {μ : Type} [Master μ] {t : DeviceType} {site : Site}
    {o : Axis.Options} {p : Param.Setting} {q : Parameter} {channel : Fin Param.maxChannels}
    (hq : q ∈ t.family.parameters) (hchannel : q.hasChannels = true ∨ channel.val = 0)
    (hid : p.id = q.id + UInt32.ofNat channel) :
    t.apply (μ := μ) site o p = q.apply site channel o p := by
  unfold apply
  cases hfamily : t.family with
  | generic =>
    rw [hfamily] at hq
    exact Parameter.generic_apply_eq hq hchannel hid
  | stepper =>
    rw [hfamily] at hq
    exact Parameter.stepper_apply_eq hq hid

end ServoBus
