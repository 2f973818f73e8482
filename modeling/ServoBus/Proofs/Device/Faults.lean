import ServoBus.Proofs.Axis.Mapping
import ServoBus.Proofs.Device.Steps
import ServoBus.Proofs.Setup.Masked

/-!
# Faults of a setup

What is applied as a parameter can be a wrong value, and a drive can have a shape that does not
work. Neither is a fault of a parameter or of a feature that nobody knows: this comes from the
master alone, if it gives such an answer.
-/

namespace ServoBus

open ServoBus.Action (FailsWith)

/-- There is no such parameter or feature. -/
def Fault.IsUnknown : Fault → Prop
  | .unknownParam .. | .unknownFeature .. => True
  | _ => False

theorem Fault.OfShape.not_isUnknown {e : Fault} (h : e.OfShape) : ¬ e.IsUnknown := by
  cases e with
  | unknownParam device name => exact absurd h id
  | unknownFeature name => exact absurd h id
  | _ => exact id

theorem Axis.Channel.Refused.gives {μ : Type} [Master μ] {site : Site} {e : Fault}
    (h : Refused μ site e) : Master.Gives μ site.position e := by
  obtain ⟨a, length, m, m', h⟩ := h
  refine ⟨.createRequest site.position a length, m, rfl, ?_⟩
  change (Answer.request (Master.createRequest site.position a length m).1).fault? = some e
  rw [h]
  rfl

/-- If there is no such parameter or feature, the master says so. -/
def Fault.Known (μ : Type) [Master μ] (slave : Position) (e : Fault) : Prop :=
  e.IsUnknown → Master.Gives μ slave e

variable {μ : Type} [Master μ] {site : Site}

theorem Fault.known_of_not {slave : Position} {e : Fault} (h : ¬ e.IsUnknown) :
    e.Known μ slave :=
  fun he => absurd he h

theorem Fault.OfShape.known {slave : Position} {e : Fault} (h : e.OfShape) : e.Known μ slave :=
  known_of_not h.not_isUnknown

theorem Fault.IsRegistrationsFull.known {slave : Position} {e : Fault}
    (h : e.IsRegistrationsFull) : e.Known μ slave := by
  obtain ⟨device, used, limit, rfl⟩ := h
  exact known_of_not id

theorem Axis.Channel.OfShapeOrRefused.known {e : Fault} (h : OfShapeOrRefused μ site e) :
    e.Known μ site.position := by
  rcases h with h | h
  · exact h.known
  · exact fun _ => h.gives

/-- A setting has a wrong value. -/
def Fault.OfSetting : Fault → Prop
  | .invalidParam .. | .invalidRatio .. => True
  | _ => False

/-- A setting has a wrong value, or the master gives the fault. -/
def Fault.OfSettingOrGiven (μ : Type) [Master μ] (slave : Position) (e : Fault) : Prop :=
  e.OfSetting ∨ Master.Gives μ slave e

theorem Fault.OfSettingOrGiven.known {slave : Position} {e : Fault}
    (h : e.OfSettingOrGiven μ slave) : e.Known μ slave := by
  rcases h with h | h
  · refine known_of_not fun he => ?_
    cases e with
    | unknownParam device name => exact h
    | unknownFeature name => exact h
    | _ => exact he
  · exact fun _ => h

section Params

theorem failsWith_writeParam (a : ObjectAddress) (content : Bytes) (param : String) :
    FailsWith (Fault.OfSettingOrGiven μ site.position)
      (Setup.writeParam (μ := μ) site a content param) := by
  refine FailsWith.noting _ (FailsWith.noting _ (FailsWith.bind ?_ fun _ => ?_))
  · exact (Setup.failsWith_onMaster (.download site.position a content) .done rfl (fun _ => rfl)
      fun _ => rfl).imp fun _ he => .inr he
  · exact (Setup.failsWith_onMaster (.addConfig site.position a content) .done rfl (fun _ => rfl)
      fun _ => rfl).imp fun _ he => .inr he

theorem failsWith_applyObject (o : Axis.Options) (p : Param.Setting) (q : Axis.ObjectParam) :
    FailsWith (Fault.OfSettingOrGiven μ site.position) (Axis.applyObject (μ := μ) site o p q) :=
  (failsWith_writeParam _ _ _).bind fun _ => Action.failsWith_pure _

theorem failsWith_applyRatio (p : Param.Setting) (q : Axis.RatioParam) :
    FailsWith (Fault.OfSettingOrGiven μ site.position) (Axis.applyRatio (μ := μ) site p q) := by
  have hdecode (text : String) (bound : UInt32) :
      FailsWith (Fault.OfSettingOrGiven μ site.position)
        (Action.ofChecked (Ratio.decode text bound) : Setup μ Ratio) := by
    refine Action.failsWith_ofChecked fun e he => .inl ?_
    unfold Ratio.decode at he
    dsimp only at he
    split at he
    · cases he
      trivial
    · split at he <;> cases he
  refine ((hdecode _ _).noting _).bind fun r => ?_
  have hsend : FailsWith (Fault.OfSettingOrGiven μ site.position) (do
      Setup.writeParam (μ := μ) site ⟨Axis.base (Param.channelOf p.id) + q.offset, 1⟩
        (payload 32 r.numerator.toInt) p.name
      Setup.writeParam site ⟨Axis.base (Param.channelOf p.id) + q.offset, 2⟩
        (payload 32 r.denominator.toNat) p.name) :=
    (failsWith_writeParam _ _ _).bind fun _ => failsWith_writeParam _ _ _
  split
  · exact (Action.failsWith_lift _).bind fun _ =>
      (Action.failsWith_throw (.inl trivial)).bind fun _ => hsend
  · exact hsend

theorem failsWith_applyAxis (p : Param.Setting) (q : Stepper.AxisParam) :
    FailsWith (Fault.OfSettingOrGiven μ site.position) (Stepper.applyAxis (μ := μ) site p q) := by
  unfold Stepper.applyAxis
  cases q with
  | peakCurrentCoarse => exact failsWith_writeParam _ _ _
  | peakCurrentFine => exact failsWith_writeParam _ _ _
  | controlMode =>
    dsimp only
    split
    · exact failsWith_writeParam _ _ _
    · refine Action.failsWith_ofChecked fun e he => .inl ?_
      cases he
      trivial

theorem failsWith_applyDrive (o : Axis.Options) (p : Param.Setting) (q : Generic.DriveParam) :
    FailsWith (Fault.OfSettingOrGiven μ site.position)
      (Action.ofChecked (Generic.applyDrive site o p q) : Setup μ Axis.Options) := by
  refine Action.failsWith_ofChecked fun e he => .inl ?_
  unfold Generic.applyDrive at he
  cases q with
  | increment =>
    dsimp only at he
    split at he <;> cases he
    trivial
  | _ => cases he

theorem Parameter.failsWith_apply (q : Parameter) (channel : Fin Param.maxChannels)
    (o : Axis.Options) (p : Param.Setting) :
    FailsWith (Fault.OfSettingOrGiven μ site.position) (q.apply (μ := μ) site channel o p) := by
  cases q with
  | drive q => exact failsWith_applyDrive _ _ _
  | stepper q => exact (failsWith_applyAxis _ _).bind fun _ => Action.failsWith_pure _
  | object q => exact failsWith_applyObject _ _ _
  | ratio q => exact (failsWith_applyRatio _ _).bind fun _ => Action.failsWith_pure _
  | enable f => exact Action.failsWith_pure _

end Params

section Rigs

theorem failsWith_addPin (label? : Option String) (name : String) (kind : Pin.Kind)
    (direction : Pin.Direction) : FailsWith (Fault.Known μ site.position)
      (Setup.addPin (μ := μ) site label? name kind direction) :=
  (Axis.Channel.spares_addPin label? name kind direction).fault.imp fun _ he => he.known

theorem failsWith_configure (o : Axis.Options) :
    FailsWith (Fault.Known μ site.position) (Axis.configure (μ := μ) site o) := by
  have hvalidate : FailsWith Fault.OfLayout
      (Action.ofChecked (o.validate site.device) : Setup μ Unit) :=
    Action.failsWith_ofChecked fun _ => Axis.ofLayout_of_validate
  have hbuild : FailsWith Fault.OfLayout (Setup.onSyncs (Axis.Layout.build o) : Setup μ Unit) :=
    FailsWith.zoom Axis.Layout.maps_build.fault _ _
  refine (hvalidate.imp fun _ he => he.ofShape.known).bind fun _ => ?_
  refine (hbuild.imp fun _ he => he.ofShape.known).bind fun _ => ?_
  refine FailsWith.mapM (fun x w e w' h => ?_) _
  rcases (Axis.Channel.syncs_register h).2 e rfl with he | ⟨he, -⟩
  · exact he.known
  · exact he.known

namespace Stepper

theorem failsWith_addLines (label : String) (direction : Pin.Direction)
    (lines : List (String × Nat)) :
    FailsWith (Fault.Known μ site.position) (addLines (μ := μ) site label direction lines) := by
  induction lines with
  | nil => exact Action.failsWith_pure []
  | cons line lines ih =>
    exact (failsWith_addPin _ _ _ _).bind fun _ => ih.bind fun _ => Action.failsWith_pure _

theorem failsWith_addPacked (label : String) (direction : Pin.Direction)
    (lines : List (String × Nat)) ( entry? : Option RegRef) :
    FailsWith (Fault.Known μ site.position)
      (addPacked (μ := μ) site label direction lines entry?) := by
  cases entry? with
  | none => exact Action.failsWith_pure []
  | some entry => exact (failsWith_addLines _ _ _).bind fun _ => Action.failsWith_pure _

theorem failsWith_addChannelLines (rig : Rig) (l : List (Axis.Channel × Axis.ChannelOptions)) :
    FailsWith (Fault.Known μ site.position) (addChannelLines (μ := μ) site rig l) := by
  induction l generalizing rig with
  | nil => exact Action.failsWith_pure rig
  | cons x l ih =>
    exact (failsWith_addPacked _ _ _ _).bind fun _ =>
      (failsWith_addPacked _ _ _ _).bind fun _ => ih _

end Stepper

end Rigs

namespace DeviceType

variable {t : DeviceType} {settings : List Param.Setting}

/-- If settings are all applied as parameters to channels, only their values can be at fault. -/
theorem failsWith_settings (h : ∀ p ∈ settings, ∃ q channel, ∀ o,
      t.apply (μ := μ) site o p = Parameter.apply q site channel o p) (o : Axis.Options) :
    FailsWith (Fault.OfSettingOrGiven μ site.position)
      (settings.foldlM (t.apply (μ := μ) site) o) := by
  refine FailsWith.foldlM (fun p hp o => ?_) o
  obtain ⟨q, channel, hq⟩ := h p hp
  rw [hq]
  exact q.failsWith_apply channel o p

/-- If settings are all applied as parameters to channels, nobody but the master says during the
setup that there is no such parameter or feature. -/
theorem failsWith_setUp (h : ∀ p ∈ settings, ∃ q channel, ∀ o,
      t.apply (μ := μ) site o p = Parameter.apply q site channel o p) :
    FailsWith (Fault.Known μ site.position) (t.setUp (μ := μ) site settings) := by
  have hidentity : FailsWith (Fault.Known μ site.position) (t.checkIdentity site : Setup μ Unit) :=
    (failsWith_checkIdentity site).imp fun _ he => he.ofShape.known
  have hlines (cs : List Axis.Channel) (o : Axis.Options) :
      FailsWith (Fault.Known μ site.position) (t.addLines (μ := μ) site cs o.active) := by
    unfold addLines
    split
    · exact Action.failsWith_pure _
    · exact Stepper.failsWith_addChannelLines _ _
  refine FailsWith.of_result_eq (result_setUp t site settings) ?_
  refine hidentity.bind fun _ => ?_
  refine ((failsWith_settings h _).imp fun _ he => he.known).bind fun o => ?_
  exact (failsWith_configure o.numberLabels).bind fun cs => hlines cs o.numberLabels

end DeviceType

end ServoBus
