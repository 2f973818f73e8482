import ServoBus.Axis.Tuning
import ServoBus.Proofs.Device.Effects

/-!
# A parameter that fails

Options that are tuned in place are those that `applySetting?` gives back, and a parameter that
fails leaves them as they are. Nothing is asked of the master for a ratio that cannot be used, and
what is sent for a ratio ends with the first call that the master refuses: the denominator waits
until all of the numerator is taken.
-/

namespace ServoBus

namespace Answer

theorem fault?_done_eq_some_iff {r : Except Fault Unit} {e : Fault} :
    (done r).fault? = some e ↔ r = .error e := by
  cases r with
  | error e' => simp [fault?]
  | ok u => simp [fault?]

theorem fault?_done_eq_none_iff {r : Except Fault Unit} :
    (done r).fault? = none ↔ r = .ok () := by
  cases r with
  | error e => simp [fault?]
  | ok u => simp [fault?]

end Answer

variable {μ : Type} [Master μ]

namespace Setup

variable {site : Site} {a : ObjectAddress} {content : Bytes} {param : String} {w : Workspace μ}
  {e : Fault}

/-- What could not be sent is not kept for later. -/
theorem result_writeParam (w : Workspace μ) :
    (writeParam site a content param).result w =
      match (Master.download site.position a content w.master).1 with
      | .ok () =>
        ((Master.addConfig site.position a content
            (Master.download site.position a content w.master).2).1,
          w.after (MasterCall.sending site.position a content))
      | .error e => (.error e, w.after [.download site.position a content]) := by
  rw [writeParam, Action.result_noting, writeObject, Action.result_noting, Action.result_bind,
    onMaster, Action.result_zoom, Action.result_ofStep]
  cases (Master.download site.position a content w.master).1 with
  | error e => rfl
  | ok u => rfl

theorem result_writeParam_of_download
    (h : ((MasterCall.download site.position a content).perform w.master).1.fault? = some e) :
    (writeParam site a content param).result w =
      (.error e, w.after [.download site.position a content]) := by
  have hdown : (Master.download site.position a content w.master).1 = .error e :=
    Answer.fault?_done_eq_some_iff.1 h
  rw [result_writeParam, hdown]

theorem result_writeParam_of_addConfig
    (hdown : ((MasterCall.download site.position a content).perform w.master).1.fault? = none)
    (h : ((MasterCall.addConfig site.position a content).perform
      ((MasterCall.download site.position a content).perform w.master).2).1.fault? = some e) :
    (writeParam site a content param).result w =
      (.error e, w.after (MasterCall.sending site.position a content)) := by
  have hdown : (Master.download site.position a content w.master).1 = .ok () :=
    Answer.fault?_done_eq_none_iff.1 hdown
  have hconfig : (Master.addConfig site.position a content
      (Master.download site.position a content w.master).2).1 = .error e :=
    Answer.fault?_done_eq_some_iff.1 h
  rw [result_writeParam, hdown]
  exact Prod.ext hconfig rfl

end Setup

theorem Ratio.outcome_decode_eq_error {text : String} {bound : UInt32} {e : Fault}
    (h : (decode text bound).outcome = .error e) : e = .invalidRatio (Text.trim text) := by
  rw [decode] at h
  split at h
  · cases h
    rfl
  · split at h
    · rw [Checked.outcome_bind] at h
      cases h
    · cases h

namespace Axis

section Ratio

variable {site : Site} {p : Param.Setting} {q : RatioParam} {w : Workspace μ} {r : Ratio}
  {e : Fault}

/-- A ratio is looked at first, and its denominator is sent behind its numerator. -/
theorem result_applyRatio (w : Workspace μ) :
    (applyRatio site p q).result w =
      match (Ratio.decode p.value.asString Ratio.defaultBound).outcome with
      | .error e => (.error e, w)
      | .ok r =>
        if r.hasZeroPart then (.error (.invalidRatio p.value.text), w)
        else
          match (Setup.writeParam site ⟨base (Param.channelOf p.id) + q.offset, 1⟩
            (payload 32 r.numerator.toInt) p.name).result w with
          | (.ok (), w') =>
            (Setup.writeParam site ⟨base (Param.channelOf p.id) + q.offset, 2⟩
              (payload 32 r.denominator.toNat) p.name).result w'
          | (.error e, w') => (.error e, w') := by
  rw [applyRatio, Action.result_bind, Action.result_noting, Action.result_ofChecked]
  cases (Ratio.decode p.value.asString Ratio.defaultBound).outcome with
  | error e => rfl
  | ok r =>
    dsimp only
    split
    · rw [Action.result_bind]
      rfl
    · rw [Action.result_bind]
      rcases (Setup.writeParam site ⟨base (Param.channelOf p.id) + q.offset, 1⟩
        (payload 32 r.numerator.toInt) p.name).result w with ⟨e | u, w'⟩ <;> rfl

theorem result_applyRatio_of_decode
    (h : (Ratio.decode p.value.asString Ratio.defaultBound).outcome = .error e) :
    (applyRatio site p q).result w =
      (.error (.invalidRatio (Text.trim p.value.asString)), w) := by
  rw [result_applyRatio, h, Ratio.outcome_decode_eq_error h]

theorem result_applyRatio_of_hasZeroPart
    (h : (Ratio.decode p.value.asString Ratio.defaultBound).outcome = .ok r)
    (hzero : r.hasZeroPart = true) :
    (applyRatio site p q).result w = (.error (.invalidRatio p.value.text), w) := by
  rw [result_applyRatio, h]
  exact if_pos hzero

/-- The denominator is not looked at if the numerator cannot be sent. -/
theorem result_applyRatio_of_writeParam {w' : Workspace μ}
    (h : (Ratio.decode p.value.asString Ratio.defaultBound).outcome = .ok r)
    (hzero : ¬ r.hasZeroPart = true)
    (hsend : (Setup.writeParam site ⟨base (Param.channelOf p.id) + q.offset, 1⟩
      (payload 32 r.numerator.toInt) p.name).result w = (.error e, w')) :
    (applyRatio site p q).result w = (.error e, w') := by
  rw [result_applyRatio, h]
  dsimp only
  rw [if_neg hzero, hsend]

/-- A setting with the number of a ratio is applied as this ratio. -/
theorem applySetting?_eq_of_ratio {o : Options} (hq : q ∈ ratioParams)
    (hid : q.id = Param.commonOf p.id) :
    applySetting? (μ := μ) site o p =
      some <$> (Parameter.ratio q).apply site (Param.channelOf p.id) o p := by
  have hmem : Parameter.ratio q ∈ Parameter.axis :=
    List.mem_append_left _ (List.mem_append_right _ (List.mem_map_of_mem hq))
  refine Parameter.applySetting?_eq hmem ?_
  rw [← UInt32.toNat_inj, Param.toNat_add_channel (Parameter.id_mod_of_mem_axis _ hmem),
    Parameter.id_ratio, hid, Param.commonOf_add_channelOf]

end Ratio

namespace Tuning

variable {α β : Type}

omit [Master μ] in
theorem result_aside_bind (x : Setup μ α) (f : α → Tuning μ β) (o : Options) (w : Workspace μ) :
    (aside x >>= f).result (o, w) =
      match x.result w with
      | (.ok a, w) => (f a).result (o, w)
      | (.error e, w) => (.error e, o, w) := by
  rw [Action.result_bind, aside, Action.result_zoom]
  rcases x.result w with ⟨e | a, w'⟩ <;> rfl

omit [Master μ] in
theorem result_onChannel_bind (channel : Fin Param.maxChannels)
    (f : ChannelOptions → ChannelOptions) (g : Unit → Tuning μ β) (o : Options)
    (w : Workspace μ) :
    (onChannel channel f >>= g).result (o, w) = (g ()).result (o.modifyChannel channel f, w) := by
  rw [Action.result_bind, onChannel, Action.result_modify]

/-- What is tuned in place is what else is given back. -/
theorem result_apply (site : Site) (p : Param.Setting) (o : Options) (w : Workspace μ) :
    (apply site p).result (o, w) =
      match (applySetting? site o p).result w with
      | (.ok (some o'), w') => (.ok true, o', w')
      | (.ok none, w') => (.ok false, o, w')
      | (.error e, w') => (.error e, o, w') := by
  unfold apply applySetting?
  by_cases hlow : p.id < firstParam
  · rw [if_pos hlow, if_pos hlow]
    rfl
  rw [if_neg hlow, if_neg hlow]
  by_cases hhigh : firstEnable ≤ Param.commonOf p.id
  · rw [if_pos hhigh, if_pos hhigh]
    cases enabledBy? (Param.commonOf p.id) with
    | none => rfl
    | some f =>
      dsimp only
      rw [result_onChannel_bind]
      rfl
  rw [if_neg hhigh, if_neg hhigh]
  cases objectParams.find? (·.id == Param.commonOf p.id) with
  | some q =>
    dsimp only
    rw [result_aside_bind, Action.result_map, applyObject, Action.result_bind]
    rcases (Setup.writeParam site ⟨base (Param.channelOf p.id) + q.offset, q.subindex⟩
      (payload (8 * q.length) (q.number p.value)) p.name).result w with ⟨e | u, w'⟩
    · rfl
    · dsimp only
      rw [result_onChannel_bind]
      rfl
  | none =>
    cases ratioParams.find? (·.id == Param.commonOf p.id) with
    | none => rfl
    | some q =>
      dsimp only
      rw [result_aside_bind, Action.result_bind]
      rcases (applyRatio site p q).result w with ⟨e | u, w'⟩ <;> rfl

theorem result_apply_ratio {q : RatioParam} (hq : q ∈ ratioParams) {p : Param.Setting}
    (hid : q.id = Param.commonOf p.id) (site : Site) (o : Options) (w : Workspace μ) :
    (apply site p).result (o, w) =
      (((applyRatio site p q).result w).1.map fun _ => true, o,
        ((applyRatio site p q).result w).2) := by
  rw [result_apply, applySetting?_eq_of_ratio hq hid, ← Parameter.applyRatio_eq rfl,
    Action.result_map, Action.result_bind]
  rcases (applyRatio site p q).result w with ⟨e | u, w'⟩ <;> rfl

/-- A parameter is applied with care for the options and for the device: what fails changes no
options, and a ratio is sent part by part as long as the master takes it, if it can be used. -/
structure Cautious (site : Site) (p : Param.Setting) (o : Options) (w : Workspace (Traced μ)) :
    Prop where
  keeps : ∀ e s, (apply site p).result (o, w) = (.error e, s) → s.1 = o
  /-- The text of a ratio is no ratio, and the master has not got any call. -/
  rejects : ∀ q ∈ ratioParams, q.id = Param.commonOf p.id → ∀ e,
    (Ratio.decode p.value.asString Ratio.defaultBound).outcome = .error e →
      (apply site p).result (o, w) =
        (.error (.invalidRatio (Text.trim p.value.asString)), o, w)
  /-- A part of a ratio is zero, and the master has not got any call. -/
  zero : ∀ q ∈ ratioParams, q.id = Param.commonOf p.id → ∀ r,
    (Ratio.decode p.value.asString Ratio.defaultBound).outcome = .ok r →
      r.numerator = 0 ∨ r.denominator = 0 →
        (apply site p).result (o, w) = (.error (.invalidRatio p.value.text), o, w)
  /-- The numerator of a ratio is refused, now or for later, and this was the last call. -/
  numerator : ∀ q ∈ ratioParams, q.id = Param.commonOf p.id → ∀ r,
    (Ratio.decode p.value.asString Ratio.defaultBound).outcome = .ok r →
      r.numerator ≠ 0 → r.denominator ≠ 0 →
        let a : ObjectAddress := ⟨base (Param.channelOf p.id) + q.offset, 1⟩
        let download := MasterCall.download site.position a (payload 32 r.numerator.toInt)
        let addConfig := MasterCall.addConfig site.position a (payload 32 r.numerator.toInt)
        ∀ e, ((download.perform w.master).1.fault? = some e →
            (apply site p).result (o, w) = (.error e, o, w.after [download])) ∧
          ((download.perform w.master).1.fault? = none →
            (addConfig.perform (download.perform w.master).2).1.fault? = some e →
              (apply site p).result (o, w) = (.error e, o, w.after [download, addConfig]))
  /-- Both parts of a ratio are taken, the numerator first. -/
  sends : ∀ q ∈ ratioParams, q.id = Param.commonOf p.id → ∀ r,
    (Ratio.decode p.value.asString Ratio.defaultBound).outcome = .ok r →
      r.numerator ≠ 0 → r.denominator ≠ 0 →
        let index := base (Param.channelOf p.id) + q.offset
        let first := MasterCall.sending site.position ⟨index, 1⟩ (payload 32 r.numerator.toInt)
        let second := MasterCall.sending site.position ⟨index, 2⟩ (payload 32 r.denominator.toNat)
        Master.Takes (first ++ second) w.master →
          (apply site p).result (o, w) = (.ok true, o, w.after (first ++ second))

theorem apply_cautious (site : Site) (p : Param.Setting) (o : Options)
    (w : Workspace (Traced μ)) : Cautious site p o w := by
  have hnonzero {r : Ratio} (hnumerator : r.numerator ≠ 0) (hdenominator : r.denominator ≠ 0) :
      ¬ r.hasZeroPart = true := by
    simp [Ratio.hasZeroPart, hnumerator, hdenominator]
  constructor
  case keeps =>
    intro e s h
    rw [result_apply] at h
    split at h <;> cases h
    rfl
  case rejects =>
    intro q hq hid e h
    rw [result_apply_ratio hq hid, result_applyRatio_of_decode h]
    rfl
  case zero =>
    intro q hq hid r h hzero
    have hzero : r.hasZeroPart = true := by simpa [Ratio.hasZeroPart] using hzero
    rw [result_apply_ratio hq hid, result_applyRatio_of_hasZeroPart h hzero]
    rfl
  case numerator =>
    intro q hq hid r h hnumerator hdenominator
    have hzero := hnonzero hnumerator hdenominator
    refine fun e => ⟨fun hdown => ?_, fun hdown hconfig => ?_⟩
    · rw [result_apply_ratio hq hid,
        result_applyRatio_of_writeParam h hzero (Setup.result_writeParam_of_download hdown)]
      rfl
    · rw [result_apply_ratio hq hid,
        result_applyRatio_of_writeParam h hzero
          (Setup.result_writeParam_of_addConfig hdown hconfig)]
      rfl
  case sends =>
    intro q hq hid r h hnumerator hdenominator
    have hzero := hnonzero hnumerator hdenominator
    intro index first second htakes
    have hcalls : (Parameter.ratio q).calls site.position (Param.channelOf p.id) p.value =
        first ++ second := by
      simp only [Parameter.calls, Parameter.sends, h, List.flatMap_cons, List.flatMap_nil,
        List.append_nil, first, second, index]
    rw [← hcalls] at htakes ⊢
    have hadmits : (Parameter.ratio q).Admits p.value := ⟨r, h, hzero⟩
    have happly :
        ((Parameter.ratio q).apply site (Param.channelOf p.id) o p).result w = (.ok o, _) :=
      Parameter.result_apply_eq_ok_iff.2 ⟨hadmits, htakes, rfl, rfl⟩
    rw [result_apply, applySetting?_eq_of_ratio hq hid, Action.result_map, happly]
    rfl

end Tuning

end Axis

end ServoBus
