import ServoBus.Proofs.Device.Declared
import ServoBus.Proofs.Axis.Noted
import ServoBus.Proofs.Master
import ServoBus.Proofs.Trace.Answers

/-!
# What parameters do

A parameter that is applied to a channel sends something and changes some options, and does
nothing else. `Parameter.sends` and `Parameter.change` say what, and `Parameter.Admits` which
values are not refused before anything is sent.

For the parameters of an axis, `Parameter.Affects` says what changes and what stays: in the options
it is one feature of one channel, or what was sent last to one object of one channel.
-/

namespace ServoBus

open Param (Declaration maxChannels)

namespace MasterCall

/-- The calls by which bytes are sent to an object, now and whenever the slave is configured. -/
def sending (slave : Position) (a : ObjectAddress) (content : Bytes) : List MasterCall :=
  [.download slave a content, .addConfig slave a content]

end MasterCall

/-- A master answers none of these calls with a fault. -/
def Master.Takes {μ : Type} [Master μ] (calls : List MasterCall) (m : μ) : Prop :=
  ∀ a ∈ answers calls m, a.fault? = none

/-- A workspace after these calls of its master, and with nothing else done. -/
def Workspace.after {μ : Type} [Master μ] (calls : List MasterCall) (w : Workspace μ) :
    Workspace μ :=
  { w with master := Master.behind calls w.master }

section Calls

variable {μ : Type} [Master μ] {calls calls' : List MasterCall}

theorem Master.takes_nil (m : μ) : Takes [] m := List.forall_mem_nil _

theorem Master.takes_append_iff {m : μ} :
    Takes (calls ++ calls') m ↔ Takes calls m ∧ Takes calls' (behind calls m) := by
  rw [Takes, answers_append, List.forall_mem_append, Takes, Takes]

theorem Workspace.after_nil (w : Workspace μ) : w.after [] = w := rfl

theorem Workspace.after_append (w : Workspace μ) :
    w.after (calls ++ calls') = (w.after calls).after calls' := by
  rw [after, Master.behind_append]
  rfl

theorem Setup.result_writeParam_eq_ok_iff {site : Site} {a : ObjectAddress} {content : Bytes}
    {param : String} {w w' : Workspace μ} :
    (writeParam site a content param).result w = (.ok (), w') ↔
      Master.Takes (MasterCall.sending site.position a content) w.master ∧
        w' = w.after (MasterCall.sending site.position a content) := by
  rw [writeParam, Action.result_noting, writeObject, Action.result_noting, Action.result_bind,
    onMaster, Action.result_zoom, Action.result_ofStep]
  simp only [Master.Takes, MasterCall.sending, Master.answers, List.forall_mem_cons,
    MasterCall.perform, Prod.map_fst, Prod.map_snd, id_eq, Workspace.after, Master.behind,
    List.foldl_cons, List.foldl_nil]
  rcases hdown : Master.download site.position a content w.master with ⟨e | ⟨⟩, m⟩
  · simp [Answer.fault?]
  · simp only [Action.result_zoom, Action.result_ofStep, onMaster]
    rcases hconfig : Master.addConfig site.position a content m with ⟨e | ⟨⟩, m'⟩
    · simp [Answer.fault?]
    · simp [Answer.fault?, eq_comm]

end Calls

namespace Parameter

/-- What a parameter sends for a channel and a value, and to which objects. -/
def sends (channel : Fin maxChannels) (v : Param.Value) : Parameter → List (ObjectAddress × Bytes)
  | drive _ => []
  | stepper .peakCurrentCoarse =>
    [(⟨0x2000 + 0x800 * UInt16.ofNat channel, 0⟩,
      payload 16 (Stepper.steps 10 v.asFloat).toNat)]
  | stepper .peakCurrentFine =>
    [(⟨0x2000 + 0x800 * UInt16.ofNat channel, 0⟩,
      payload 16 (Stepper.steps 1000 v.asFloat).toNat)]
  | stepper .controlMode =>
    match Text.lookupCaseless Stepper.controlModes v.asString with
    | some mode =>
      [(⟨0x2000 + 0x800 * UInt16.ofNat channel + 0x24, 0⟩, payload 16 mode.toNat)]
    | none => []
  | object q =>
    [(⟨Axis.base channel + q.offset, q.subindex⟩, payload (8 * q.length) (q.number v))]
  | ratio q =>
    match (Ratio.decode v.asString Ratio.defaultBound).outcome with
    | .ok r =>
      [(⟨Axis.base channel + q.offset, 1⟩, payload 32 r.numerator.toInt),
        (⟨Axis.base channel + q.offset, 2⟩, payload 32 r.denominator.toNat)]
    | .error _ => []
  | enable _ => []

/-- The calls that a parameter makes for a channel and a value. -/
def calls (slave : Position) (channel : Fin maxChannels) (v : Param.Value) (q : Parameter) :
    List MasterCall :=
  (q.sends channel v).flatMap fun x => MasterCall.sending slave x.1 x.2

/-- The options that a parameter makes of others. -/
def change (channel : Fin maxChannels) (v : Param.Value) (o : Axis.Options) :
    Parameter → Axis.Options
  | drive .channels => { o with channels := v.asU32.toNat }
  | drive .outputLimit => { o with outputLimit := v.asU32.toNat }
  | drive .inputLimit => { o with inputLimit := v.asU32.toNat }
  | drive .increment => { o with increment := UInt16.ofNat v.asU32.toNat }
  | drive .autoflow => { o with autoflow := v.asBool }
  | drive .pdoLimit => { o with pdoLimit := v.asU32.toNat }
  | drive .pdoEntryLimit => { o with pdoEntryLimit := v.asU32.toNat }
  | stepper _ => o
  | object q => o.modifyChannel channel (·.noteSent q.offset q.subindex (q.number v))
  | ratio _ => o
  | enable f => o.modifyChannel channel fun c =>
      { c with requested := c.requested.assign f v.asBool }

/-- The values that a parameter takes. -/
def Admits (v : Param.Value) : Parameter → Prop
  | drive .increment => v.asU32.toNat < 0x10000
  | stepper .controlMode =>
    (Text.lookupCaseless Stepper.controlModes v.asString).isSome = true
  | ratio _ => ∃ r, (Ratio.decode v.asString Ratio.defaultBound).outcome = .ok r ∧
      ¬ r.hasZeroPart = true
  | _ => True

theorem outcome_applyDrive_eq_ok_iff {site : Site} {o o' : Axis.Options} {p : Param.Setting}
    (channel : Fin maxChannels) {q : Generic.DriveParam} {id : UInt32} :
    (Generic.applyDrive site o { p with id } q).outcome = .ok o' ↔
      (drive q).Admits p.value ∧ o' = (drive q).change channel p.value o := by
  cases q
  case increment =>
    unfold Generic.applyDrive
    dsimp only [Admits, change]
    split
    · next h => simp [h, eq_comm]
    · next h => simp [h]
  all_goals simp [Generic.applyDrive, Admits, change, eq_comm]

section Apply

variable {μ : Type} [Master μ] {site : Site} {channel : Fin maxChannels} {o o' : Axis.Options}
  {p : Param.Setting} {w w' : Workspace μ}

theorem result_applyAxis_eq_ok_iff {q : Stepper.AxisParam} :
    (Stepper.applyAxis site { p with id := UInt32.ofNat channel } q).result w = (.ok (), w') ↔
      (stepper q).Admits p.value ∧
        Master.Takes ((stepper q).calls site.position channel p.value) w.master ∧
          w' = w.after ((stepper q).calls site.position channel p.value) := by
  unfold Stepper.applyAxis
  rw [Param.channelOf_ofNat]
  cases q with
  | peakCurrentCoarse => simp [Admits, calls, sends, Setup.result_writeParam_eq_ok_iff]
  | peakCurrentFine => simp [Admits, calls, sends, Setup.result_writeParam_eq_ok_iff]
  | controlMode =>
    dsimp only [Admits, calls, sends]
    cases Text.lookupCaseless Stepper.controlModes p.value.asString with
    | none => simp
    | some mode => simp [Setup.result_writeParam_eq_ok_iff]

theorem result_applyRatio_eq_ok_iff {q : Axis.RatioParam} :
    (Axis.applyRatio site { p with id := UInt32.ofNat channel } q).result w = (.ok (), w') ↔
      (ratio q).Admits p.value ∧
        Master.Takes ((ratio q).calls site.position channel p.value) w.master ∧
          w' = w.after ((ratio q).calls site.position channel p.value) := by
  unfold Axis.applyRatio
  rw [Param.channelOf_ofNat]
  dsimp only [Admits, calls, sends]
  rw [Action.result_bind, Action.result_noting, Action.result_ofChecked]
  cases (Ratio.decode p.value.asString Ratio.defaultBound).outcome with
  | error e => simp
  | ok r =>
    dsimp only
    split
    · next hzero => simp [Action.result_bind, hzero]
    · next hzero =>
      simp only [Action.result_seq_eq_ok_iff, Setup.result_writeParam_eq_ok_iff,
        List.flatMap_cons, List.flatMap_nil, List.append_nil, Master.takes_append_iff,
        Workspace.after_append]
      constructor
      · rintro ⟨_, ⟨hfirst, rfl⟩, hsecond, rfl⟩
        exact ⟨⟨r, rfl, hzero⟩, ⟨hfirst, hsecond⟩, rfl⟩
      · rintro ⟨-, ⟨hfirst, hsecond⟩, rfl⟩
        exact ⟨_, ⟨hfirst, rfl⟩, hsecond, rfl⟩

/-- A parameter is applied if it takes the value and the master takes the calls, and then these
calls and the change of the options are all that is done. -/
theorem result_apply_eq_ok_iff {q : Parameter} :
    (q.apply site channel o p).result w = (.ok o', w') ↔
      q.Admits p.value ∧ Master.Takes (q.calls site.position channel p.value) w.master ∧
        w' = w.after (q.calls site.position channel p.value) ∧
          o' = q.change channel p.value o := by
  cases q with
  | drive q =>
    rw [apply, Action.result_ofChecked_eq_ok_iff, outcome_applyDrive_eq_ok_iff channel]
    simp only [calls, sends, List.flatMap_nil, Master.takes_nil, Workspace.after_nil, true_and,
      and_assoc]
    exact and_congr_right' and_comm
  | stepper q =>
    simp only [apply, Action.result_seq_pure_eq_ok_iff, result_applyAxis_eq_ok_iff, change,
      and_assoc]
  | object q =>
    simp only [apply, Axis.applyObject, Param.channelOf_ofNat, Action.result_seq_pure_eq_ok_iff,
      Setup.result_writeParam_eq_ok_iff, Admits, calls, sends, List.flatMap_cons,
      List.flatMap_nil, List.append_nil, change, true_and, and_assoc]
  | ratio q =>
    simp only [apply, Action.result_seq_pure_eq_ok_iff, result_applyRatio_eq_ok_iff, change,
      and_assoc]
  | enable f =>
    simp only [apply, Action.result_pure_eq_ok_iff, Admits, calls, sends, List.flatMap_nil, change,
      Master.takes_nil, Workspace.after_nil, true_and, and_comm]

end Apply

end Parameter

/-- Configuration names differ even where case does not matter. -/
theorem Feature.nodup_folds : (all.map fun f => Text.fold f.configName).Nodup := by
  -- numbers are told apart more quickly than lists of characters
  refine List.Nodup.of_map (fun cs => cs.foldl (fun n c => 256 * n + c.toNat) 0) ?_
  decide +kernel

theorem Feature.ofConfigName?_configName (f : Feature) : ofConfigName? f.configName = some f := by
  cases h : ofConfigName? f.configName with
  | none =>
    have hno := List.find?_eq_none.1 h f f.mem_all
    exact absurd (Text.sameCaseless_self f.configName) hno
  | some g =>
    have hsame : Text.sameCaseless g.configName f.configName = true :=
      List.find?_some (p := fun g : Feature => Text.sameCaseless g.configName f.configName) h
    have hfold := Text.sameCaseless_iff.1 hsame
    rw [List.inj_on_of_nodup_map nodup_folds g.mem_all f.mem_all hfold]

theorem FeatureSet.contains_assign (s : FeatureSet) (f g : Feature) (on : Bool) :
    (s.assign f on).contains g = if g = f then on else s.contains g := by
  rw [Bool.eq_iff_iff, assign]
  change g ∈ (if on = true then s.insert f else s.erase f) ↔ _
  by_cases hg : g = f
  · cases on <;> simp [hg, mem_insert, mem_erase]
  · rw [if_neg hg]
    change _ ↔ g ∈ s
    cases on <;> simp [hg, mem_insert, mem_erase]

namespace Axis

/-! ## What is seen in the options -/

namespace Options

/-- All that may differ is the options of one channel. -/
structure Within (channel : Fin maxChannels) (o o' : Options) : Prop where
  device : { o' with channel := o.channel } = o
  others : ∀ ch, ch ≠ channel → o'.channel.get ch = o.channel.get ch

/-- A feature is asked for on a channel, or is not, and nothing else differs. -/
structure Requests (channel : Fin maxChannels) (f : Feature) (on : Bool) (o o' : Options) : Prop
    extends Within channel o o' where
  rest : o'.channel.get channel =
    { o.channel.get channel with requested := (o'.channel.get channel).requested }
  contains_eq : ∀ g, (o'.channel.get channel).requested.contains g =
    if g = f then on else (o.channel.get channel).requested.contains g

/-- A value was sent to an object of a channel last, and nothing else differs. -/
structure Records (channel : Fin maxChannels) (offset : UInt16) (subindex : UInt8) (value : Int)
    (o o' : Options) : Prop extends Within channel o o' where
  rest : o'.channel.get channel =
    { o.channel.get channel with sent := (o'.channel.get channel).sent }
  sent_eq : ∀ offset' subindex', (o'.channel.get channel).sent? offset' subindex' =
    if offset' = offset ∧ subindex' = subindex then some value
    else (o.channel.get channel).sent? offset' subindex'

variable (o : Options) (channel : Fin maxChannels)

theorem within_modifyChannel (f : ChannelOptions → ChannelOptions) :
    o.Within channel (o.modifyChannel channel f) where
  device := rfl
  others ch hch := by rw [get_modifyChannel, if_neg (Ne.symm hch)]

theorem requests_assign (f : Feature) (on : Bool) :
    o.Requests channel f on
      (o.modifyChannel channel fun c => { c with requested := c.requested.assign f on }) where
  toWithin := o.within_modifyChannel channel _
  rest := by rw [get_modifyChannel, if_pos rfl]
  contains_eq g := by
    rw [get_modifyChannel, if_pos rfl]
    exact FeatureSet.contains_assign ..

theorem records_noteSent (offset : UInt16) (subindex : UInt8) (value : Int) :
    o.Records channel offset subindex value
      (o.modifyChannel channel (·.noteSent offset subindex value)) where
  toWithin := o.within_modifyChannel channel _
  rest := by
    rw [get_modifyChannel, if_pos rfl]
    rfl
  sent_eq offset' subindex' := by
    rw [get_modifyChannel, if_pos rfl]
    split
    · next heq => rw [heq.1, heq.2, ChannelOptions.sent?_noteSent]
    · next hne => exact ChannelOptions.sent?_noteSent_of_ne hne

end Options

end Axis

/-! ## Targets -/

/-- The declarations of a parameter for one channel. The first channel need not be named. -/
def Param.Declaration.spellings (channel : Fin maxChannels) (d : Declaration) : List Declaration :=
  if channel.val = 0 then [d, d.forChannel channel] else [d.forChannel channel]

theorem Param.Declaration.id_of_mem_spellings {channel : Fin maxChannels} {d e : Declaration}
    (he : e ∈ d.spellings channel) : e.id = d.id + UInt32.ofNat channel := by
  unfold spellings at he
  split at he
  · next hzero =>
    rcases List.mem_pair.1 he with rfl | rfl
    · rw [hzero]
      exact (UInt32.add_zero _).symm
    · rfl
  · rw [List.mem_singleton.1 he]
    rfl

namespace Parameter

/-- What a parameter of axes does to a channel with a value. Options are all that changes for a
feature, an object is sent what is then recorded, and of the parts of a ratio nothing is
recorded. -/
def Affects {μ : Type} [Master μ] (site : Site) (channel : Fin maxChannels) (v : Param.Value)
    (o o' : Axis.Options) (w w' : Workspace (Traced μ)) : Parameter → Prop
  | enable f =>
    Feature.ofConfigName? f.configName = some f ∧ w' = w ∧ o.Requests channel f v.asBool o'
  | object q =>
    w' = w.after (MasterCall.sending site.position
        ⟨Axis.base channel + q.offset, q.subindex⟩ (payload (8 * q.length) (q.number v))) ∧
      o.Records channel q.offset q.subindex (q.number v) o'
  | ratio q => ∃ r,
    (Ratio.decode v.asString Ratio.defaultBound).outcome = .ok r ∧
      w' = w.after
        (MasterCall.sending site.position ⟨Axis.base channel + q.offset, 1⟩
            (payload 32 r.numerator.toInt) ++
          MasterCall.sending site.position ⟨Axis.base channel + q.offset, 2⟩
            (payload 32 r.denominator.toNat)) ∧
      o' = o
  | drive _ | stepper _ => False

theorem affects_of_result_apply {μ : Type} [Master μ] {q : Parameter} (hq : q ∈ axis)
    {site : Site} {channel : Fin maxChannels} {o o' : Axis.Options} {p : Param.Setting}
    {w w' : Workspace (Traced μ)} (h : (q.apply site channel o p).result w = (.ok o', w')) :
    q.Affects site channel p.value o o' w w' := by
  obtain ⟨hadmits, -, rfl, rfl⟩ := result_apply_eq_ok_iff.1 h
  simp only [axis, List.mem_append, List.mem_map] at hq
  rcases hq with (⟨q, -, rfl⟩ | ⟨q, -, rfl⟩) | ⟨f, -, rfl⟩
  · exact ⟨rfl, o.records_noteSent channel _ _ _⟩
  · obtain ⟨r, hr, -⟩ := hadmits
    refine ⟨r, hr, ?_, rfl⟩
    rw [calls, sends, hr]
    rfl
  · exact ⟨f.ofConfigName?_configName, rfl, o.requests_assign channel f _⟩

end Parameter

namespace Axis

/-- A parameter of axes that is applied with success does what its declaration says to one
channel, and nothing else. By which name it is given does not matter. -/
theorem affects_of_applied {μ : Type} [Master μ] {d e : Declaration} (hd : d ∈ axisDeclarations)
    {channel : Fin maxChannels} (he : e ∈ d.spellings channel) {p : Param.Setting}
    (hid : p.id = e.id) {site : Site} {o : Options} {o? : Option Options}
    {w w' : Workspace (Traced μ)} (h : (applySetting? site o p).result w = (.ok o?, w')) :
    (∃ q ∈ Parameter.axis, q.name = d.name ∧ q.id = d.id ∧
      ∃ o', o? = some o' ∧ q.Affects site channel p.value o o' w w') ∧
    ∀ e' ∈ d.spellings channel, ∀ p' : Param.Setting, p'.id = e'.id → p'.value = p.value →
      (applySetting? site o p').result w = (.ok o?, w') := by
  obtain ⟨q, hq, hname, hqid, -⟩ := exists_of_mem_axisDeclarations hd
  have hspelled {e' : Declaration} (he' : e' ∈ d.spellings channel) {p' : Param.Setting}
      (hid' : p'.id = e'.id) : p'.id = q.id + UInt32.ofNat channel := by
    rw [hid', Declaration.id_of_mem_spellings he', hqid]
  rw [Parameter.applySetting?_eq hq (hspelled he hid), Action.result_map_eq_ok_iff] at h
  obtain ⟨o', happly, rfl⟩ := h
  refine ⟨⟨q, hq, hname, hqid, o', rfl, Parameter.affects_of_result_apply hq happly⟩, ?_⟩
  intro e' he' p' hid' hvalue
  rw [Parameter.applySetting?_eq hq (hspelled he' hid'), Action.result_map_eq_ok_iff]
  refine ⟨o', ?_, rfl⟩
  -- the value is all of a setting that is looked at by the parameter
  rw [Parameter.result_apply_eq_ok_iff] at happly ⊢
  rwa [hvalue]

/-- A drive on the bench of which nothing was made yet. -/
def benchSite : Site := ⟨"m0", "a", 3, ⟨1, 2⟩⟩

def benchWorkspace : Workspace (Traced Bench) :=
  ⟨⟨⟨[]⟩, []⟩, ⟨benchSite.device, [], false⟩, ⟨benchSite.device, 32, []⟩, {}⟩

/-- A setting of the homing method of the first channel, which has two names. -/
def homing (name : String) : Param.Setting := ⟨0x1088, name, .s32 (-1)⟩

/-- One byte is sent for the homing method, twice, and recorded, whichever name is given. -/
theorem affects_of_applied_homing : ∃ o',
    (applySetting? benchSite { channels := 1 } (homing "homeMethod")).result benchWorkspace =
      (.ok (some o'), benchWorkspace.after (MasterCall.sending 3 ⟨0x6098, 0⟩ [255])) ∧
    (∃ q ∈ Parameter.axis, q.name = "homeMethod" ∧ q.id = 0x1088 ∧
      q.Affects benchSite ⟨0, by decide⟩ (.s32 (-1)) { channels := 1 } o' benchWorkspace
        (benchWorkspace.after (MasterCall.sending 3 ⟨0x6098, 0⟩ [255]))) ∧
    (applySetting? benchSite { channels := 1 } (homing "ch1homeMethod")).result benchWorkspace =
      (.ok (some o'), benchWorkspace.after (MasterCall.sending 3 ⟨0x6098, 0⟩ [255])) := by
  let d : Declaration := { name := "homeMethod", id := 0x1088, kind := .s32 }
  have hd : d ∈ axisDeclarations := by decide +kernel
  have hbare : d ∈ d.spellings ⟨0, by decide⟩ := List.mem_cons_self ..
  have hnamed : d.forChannel 0 ∈ d.spellings ⟨0, by decide⟩ :=
    List.mem_cons_of_mem _ (List.mem_singleton_self _)
  have hrun : (applySetting? benchSite { channels := 1 } (homing "homeMethod")).result
      benchWorkspace =
        (.ok (some (Options.modifyChannel { channels := 1 } ⟨0, by decide⟩
            (·.noteSent 0x98 0 (-1)))),
          benchWorkspace.after (MasterCall.sending 3 ⟨0x6098, 0⟩ [255])) := rfl
  obtain ⟨⟨q, hq, hname, hid, o', ho', haffects⟩, hnames⟩ :=
    affects_of_applied hd hbare rfl hrun
  cases ho'
  exact ⟨_, hrun, ⟨q, hq, hname, hid, haffects⟩, hnames _ hnamed (homing "ch1homeMethod") rfl rfl⟩

end Axis

end ServoBus
