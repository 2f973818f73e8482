import ServoBus.Device.Generic
import ServoBus.Device.Stepper
import ServoBus.Proofs.Axis.Address
import ServoBus.Proofs.Axis.Settings
import ServoBus.Proofs.Pin.Reading
import ServoBus.Proofs.Setup.Trace

/-!
# What settings have sent

A setting that sends a value to an object notes it in the options of its channel. So for the
objects that are written on change the options know what was sent to them last: by the table of
parameters the note has the width and the sign of the object, and what is sent for ratios or by
parameters of the device alone goes to other objects.
-/

namespace ServoBus

namespace Axis

/-- The address of an object of a channel. -/
def serviceAddress (channel : Nat) (d : DriveObject) : ObjectAddress :=
  ⟨d.index (base channel), d.subindex⟩

/-- An object of a feature that is written on change. -/
def IsService (d : DriveObject) : Prop := ∃ f : Feature, f.object? = some d ∧ d.transfer = .service

/-- The options note for every object that is written on change what was sent to it last, and the
pin of the object can hold it. -/
def Options.Notes (site : Site) (o : Options) (calls : List MasterCall) : Prop :=
  ∀ ch : Fin Param.maxChannels, ∀ d, IsService d →
    lastSent? site.position (serviceAddress ch d) calls =
        ((o.channel.get ch).sent? d.offset d.subindex).map (payload d.format.width) ∧
      ∀ v, (o.channel.get ch).sent? d.offset d.subindex = some v →
        (Pin.Value.ofRaw d.format.pinKind v).raw = v

/-! ## Tables -/

theorem offset_lt_of_mem_objectParams : ∀ q ∈ objectParams, q.offset.toNat < 0x800 := by
  decide +kernel

theorem objectParams_table :
    ∀ q ∈ objectParams, ∀ f ∈ Feature.all, ∀ d ∈ f.object?, d.transfer = .service →
      d.offset = q.offset → d.subindex = q.subindex →
        d.format.width = 8 * q.length ∧ q.kind = if d.format.signed then .s32 else .u32 := by
  decide +kernel

theorem ratioParams_table :
    ∀ q ∈ ratioParams, q.offset.toNat < 0x800 ∧
      ∀ f ∈ Feature.all, ∀ d ∈ f.object?, d.transfer = .service → d.offset ≠ q.offset := by
  decide +kernel

section Tables

variable {q : ObjectParam} {d : DriveObject}

theorem IsService.offset_lt (h : IsService d) : d.offset.toNat < 0x800 := by
  obtain ⟨f, hd, -⟩ := h
  exact Feature.offset_lt hd

/-- An object that is written on change is sent in as many bits as it has. -/
theorem IsService.width_eq (h : IsService d) (hq : q ∈ objectParams) (ho : d.offset = q.offset)
    (hs : d.subindex = q.subindex) : d.format.width = 8 * q.length := by
  obtain ⟨f, hd, ht⟩ := h
  exact (objectParams_table q hq f (Feature.mem_all f) d hd ht ho hs).1

/-- The pin of such an object can hold every value that is sent. -/
theorem IsService.raw_number (h : IsService d) (hq : q ∈ objectParams) (ho : d.offset = q.offset)
    (hs : d.subindex = q.subindex) (v : Param.Value) :
    (Pin.Value.ofRaw d.format.pinKind (q.number v)).raw = q.number v := by
  obtain ⟨f, hd, ht⟩ := h
  have hkind := (objectParams_table q hq f (Feature.mem_all f) d hd ht ho hs).2
  rw [ObjectParam.number, hkind, Format.pinKind]
  cases d.format.signed with
  | false =>
    have hlt := v.asU32.toNat_lt
    simp only [Bool.false_eq_true, if_false, Pin.Value.ofRaw, Pin.Value.raw]
    rw [UInt32.ofInt, Int.emod_eq_of_lt (Int.natCast_nonneg _) (by omega), Int.toNat_natCast,
      UInt32.ofNat_toNat]
  | true => exact congrArg Int32.toInt (Int32.ofInt_toInt _)

/-- An address in the block of a channel is that of an object of the same place. -/
theorem IsService.eq_of_address (h : IsService d) {ch ch' : Fin Param.maxChannels}
    {offset : UInt16} {subindex : UInt8} (ho : offset.toNat < 0x800)
    (heq : (⟨base ch' + offset, subindex⟩ : ObjectAddress) = serviceAddress ch d) :
    ch' = ch ∧ d.offset = offset ∧ d.subindex = subindex := by
  obtain ⟨hindex, hsub⟩ := ObjectAddress.mk.inj heq
  obtain ⟨hch, hoffset⟩ := base_add_inj ch'.isLt ch.isLt ho h.offset_lt hindex
  exact ⟨Fin.ext hch, hoffset.symm, hsub.symm⟩

end Tables

/-! ## Notes -/

theorem ChannelOptions.sent?_noteSent_of_ne {c : ChannelOptions} {offset offset' : UInt16}
    {subindex subindex' : UInt8} {value : Int} (h : ¬ (offset' = offset ∧ subindex' = subindex)) :
    (c.noteSent offset subindex value).sent? offset' subindex' = c.sent? offset' subindex' := by
  have hkey : ((offset', subindex') == (offset, subindex)) = false := by
    rw [beq_eq_false_iff_ne, ne_eq, Prod.mk.injEq]
    exact h
  rw [sent?, noteSent, List.lookup_cons, hkey]
  rfl

theorem Options.get_modifyChannel (o : Options) (ch ch' : Fin Param.maxChannels)
    (f : ChannelOptions → ChannelOptions) :
    (o.modifyChannel ch f).channel.get ch' =
      if ch = ch' then f (o.channel.get ch') else o.channel.get ch' := by
  change (o.modifyChannel ch f).channel[ch'] =
    if ch = ch' then f o.channel[ch'] else o.channel[ch']
  simp only [modifyChannel, Fin.getElem_fin, Vector.getElem_set, Fin.ext_iff]
  split
  · next heq => simp only [heq]
  · rfl

namespace Options.Notes

variable {site : Site} {o o' : Options} {calls new : List MasterCall}

theorem congr (h : o.Notes site calls)
    (ho : ∀ ch, (o'.channel.get ch).sent = (o.channel.get ch).sent) :
    o'.Notes site calls := by
  intro ch d hd
  have hsent : (o'.channel.get ch).sent? d.offset d.subindex =
      (o.channel.get ch).sent? d.offset d.subindex := by
    rw [ChannelOptions.sent?, ho, ChannelOptions.sent?]
  rw [hsent]
  exact h ch d hd

theorem modifyChannel (h : o.Notes site calls) (ch : Fin Param.maxChannels)
    {f : ChannelOptions → ChannelOptions} (hf : ∀ c, (f c).sent = c.sent) :
    (o.modifyChannel ch f).Notes site calls := by
  refine h.congr fun ch' => ?_
  rw [get_modifyChannel]
  split
  · exact hf _
  · rfl

/-- What is sent to an object is noted. -/
theorem object (h : o.Notes site calls) {q : ObjectParam} (hq : q ∈ objectParams)
    (ch : Fin Param.maxChannels) (v : Param.Value) :
    (o.modifyChannel ch (·.noteSent q.offset q.subindex (q.number v))).Notes site
      (.addConfig site.position ⟨base ch + q.offset, q.subindex⟩
          (payload (8 * q.length) (q.number v)) ::
        .download site.position ⟨base ch + q.offset, q.subindex⟩
          (payload (8 * q.length) (q.number v)) :: calls) := by
  intro ch' d hd
  rw [lastSent?_cons_of_idle fun _ _ => rfl, get_modifyChannel]
  by_cases heq : (⟨base ch + q.offset, q.subindex⟩ : ObjectAddress) = serviceAddress ch' d
  · obtain ⟨rfl, ho, hs⟩ := hd.eq_of_address (offset_lt_of_mem_objectParams q hq) heq
    rw [if_pos rfl, heq, lastSent?_cons_self, ho, hs, ChannelOptions.sent?_noteSent,
      hd.width_eq hq ho hs]
    refine ⟨rfl, fun w hw => ?_⟩
    cases hw
    exact hd.raw_number hq ho hs v
  · rw [lastSent?_cons_of_ne heq]
    split
    · next hch =>
      subst hch
      rw [ChannelOptions.sent?_noteSent_of_ne]
      · exact h ch d hd
      · rintro ⟨ho, hs⟩
        exact heq (by rw [serviceAddress, DriveObject.index, ho, hs])
    · exact h ch' d hd

/-- What is sent elsewhere need not be noted. -/
theorem elsewhere (h : o.Notes site calls) {a : ObjectAddress}
    (ha : ∀ (ch : Fin Param.maxChannels) d, IsService d → a ≠ serviceAddress ch d)
    (content : Bytes) :
    o.Notes site (.addConfig site.position a content ::
      .download site.position a content :: calls) := by
  intro ch d hd
  rw [lastSent?_cons_of_idle fun _ _ => rfl, lastSent?_cons_of_ne (ha ch d hd)]
  exact h ch d hd

theorem idle (h : o.Notes site calls) (hnew : ∀ call ∈ new, call.Idle) :
    o.Notes site (new ++ calls) := by
  intro ch d hd
  rw [lastSent?_append_of_idle hnew]
  exact h ch d hd

end Options.Notes

/-- Since a trace began the options have noted what was sent. -/
def Options.Noted {μ : Type} (site : Site) (t : Traced μ) (o : Options)
    (w : Workspace (Traced μ)) : Prop :=
  ∃ new, w.master.calls = new ++ t.calls ∧ o.Notes site new

section Apply

variable {μ : Type} [Master μ] {site : Site} {t : Traced μ} {o o' : Options} {p : Param.Setting}
  {w w' : Workspace (Traced μ)}

theorem noted_writeParam_elsewhere (hn : o.Noted site t w) {a : ObjectAddress}
    (ha : ∀ (ch : Fin Param.maxChannels) d, IsService d → a ≠ serviceAddress ch d)
    {content : Bytes} {name : String}
    (h : (Setup.writeParam site a content name).result w = (.ok (), w')) : o.Noted site t w' := by
  obtain ⟨new, hcalls, hnotes⟩ := hn
  refine ⟨_, ?_, hnotes.elsewhere ha content⟩
  rw [Setup.calls_of_result_writeParam h, hcalls]
  rfl

theorem noted_applyObject {q : ObjectParam} (hq : q ∈ objectParams) (hn : o.Noted site t w)
    (h : (applyObject site o p q).result w = (.ok o', w')) : o'.Noted site t w' := by
  obtain ⟨new, hcalls, hnotes⟩ := hn
  obtain ⟨⟨⟩, w₁, hsend, hend⟩ := Action.result_bind_eq_ok_iff.1 h
  cases hend
  refine ⟨_, ?_, hnotes.object hq (Param.channelOf p.id) p.value⟩
  rw [Setup.calls_of_result_writeParam hsend, hcalls]
  rfl

theorem noted_applyRatio {q : RatioParam} (hq : q ∈ ratioParams) (hn : o.Noted site t w)
    (h : (applyRatio site p q).result w = (.ok (), w')) : o.Noted site t w' := by
  have helsewhere (subindex : UInt8) (ch : Fin Param.maxChannels) (d : DriveObject)
      (hd : IsService d) :
      (⟨base (Param.channelOf p.id) + q.offset, subindex⟩ : ObjectAddress) ≠
        serviceAddress ch d := by
    intro heq
    obtain ⟨f, hf, ht⟩ := hd
    obtain ⟨hlt, htable⟩ := ratioParams_table q hq
    have ho := (IsService.eq_of_address ⟨f, hf, ht⟩ hlt heq).2.1
    exact htable f (Feature.mem_all f) d hf ht ho
  rw [applyRatio] at h
  obtain ⟨r, w₁, hdecode, hsend⟩ := Action.result_bind_eq_ok_iff.1 h
  rw [Action.result_noting, Action.result_ofChecked_eq_ok_iff] at hdecode
  obtain ⟨-, rfl⟩ := hdecode
  dsimp only at hsend
  split at hsend
  · cases hsend
  · obtain ⟨w₂, hfirst, hsecond⟩ := Action.result_seq_eq_ok_iff.1 hsend
    exact noted_writeParam_elsewhere
      (noted_writeParam_elsewhere hn (helsewhere 1) hfirst) (helsewhere 2) hsecond

theorem noted_applySetting? (hn : o.Noted site t w)
    (h : (applySetting? site o p).result w = (.ok (some o'), w')) : o'.Noted site t w' := by
  unfold applySetting? at h
  extract_lets common at h
  clear_value common
  split at h
  · cases h
  · split at h
    · split at h
      · cases h
        obtain ⟨new, hcalls, hnotes⟩ := hn
        exact ⟨new, hcalls, hnotes.modifyChannel _ fun _ => rfl⟩
      · cases h
    · split at h
      · next q _ hq =>
        obtain ⟨o₁, h₁, heq⟩ := Action.result_map_eq_ok_iff.1 h
        cases heq
        exact noted_applyObject (List.mem_of_find?_eq_some hq) hn h₁
      · next q _ hq =>
        obtain ⟨_, w₁, h₁, h₂⟩ := Action.result_bind_eq_ok_iff.1 h
        cases h₂
        exact noted_applyRatio (List.mem_of_find?_eq_some hq) hn h₁
      · cases h

end Apply

/-- Objects of channels stand behind those of the device. -/
theorem IsService.le_index {d : DriveObject} (h : IsService d) (ch : Fin Param.maxChannels) :
    0x6000 ≤ (serviceAddress ch d).index.toNat := by
  have hlt := h.offset_lt
  have hbase := toNat_base ch.isLt
  have hch : ch.val < 8 := ch.isLt
  rw [serviceAddress, DriveObject.index, UInt16.toNat_add, hbase]
  omega

/-- Before anything is sent there is nothing to note. -/
theorem Options.noted_nil {μ : Type} {site : Site} {t : Traced μ} {o : Options}
    {w : Workspace (Traced μ)} (ho : o.Uniform (·.sent) []) (hw : w.master = t) :
    o.Noted site t w := by
  refine ⟨[], by rw [hw]; rfl, fun ch d _ => ?_⟩
  have hsent : (o.channel.get ch).sent = [] := ho ch ch.isLt
  rw [ChannelOptions.sent?, hsent]
  refine ⟨rfl, fun v hv => ?_⟩
  cases hv

end Axis

section Device

variable {μ : Type} [Master μ] {site : Site} {t : Traced μ} {o o' : Axis.Options}
  {p : Param.Setting} {w w' : Workspace (Traced μ)}

theorem Generic.noted_apply (hn : o.Noted site t w)
    (h : (Generic.apply site o p).result w = (.ok o', w')) : o'.Noted site t w' := by
  unfold Generic.apply at h
  split at h
  · next q _ =>
    rw [Action.result_ofChecked_eq_ok_iff] at h
    obtain ⟨h, rfl⟩ := h
    obtain ⟨new, hcalls, hnotes⟩ := hn
    refine ⟨new, hcalls, hnotes.congr fun ch => ?_⟩
    cases q <;> simp only [applyDrive] at h
    case increment =>
      split at h
      · cases h
        rfl
      · cases h
    all_goals
      cases h
      rfl
  · obtain ⟨o?, w₁, h₁, h⟩ := Action.result_bind_eq_ok_iff.1 h
    split at h
    · cases h
      exact Axis.noted_applySetting? hn h₁
    · cases h

theorem Stepper.noted_applyAxis {q : Stepper.AxisParam} (hn : o.Noted site t w)
    (h : (Stepper.applyAxis site p q).result w = (.ok (), w')) : o.Noted site t w' := by
  have hch : (Param.channelOf p.id).val < 8 := (Param.channelOf p.id).isLt
  have hfirst : (0x2000 + 0x800 * UInt16.ofNat (Param.channelOf p.id)).toNat =
      0x2000 + 0x800 * (Param.channelOf p.id).val := by
    rw [UInt16.toNat_add, UInt16.toNat_mul, UInt16.toNat_ofNat']
    simp only [UInt16.reduceToNat]
    omega
  have helsewhere (index : UInt16) (hi : index.toNat < 0x6000) (ch : Fin Param.maxChannels)
      (d : DriveObject) (hd : Axis.IsService d) :
      (⟨index, 0⟩ : ObjectAddress) ≠ Axis.serviceAddress ch d := by
    intro heq
    have hle := hd.le_index ch
    rw [← heq] at hle
    exact Nat.not_le.2 hi hle
  unfold Stepper.applyAxis at h
  cases q with
  | peakCurrentCoarse => exact Axis.noted_writeParam_elsewhere hn (helsewhere _ (by omega)) h
  | peakCurrentFine => exact Axis.noted_writeParam_elsewhere hn (helsewhere _ (by omega)) h
  | controlMode =>
    dsimp only at h
    split at h
    · refine Axis.noted_writeParam_elsewhere hn (helsewhere _ ?_) h
      rw [UInt16.toNat_add, hfirst]
      simp only [UInt16.reduceToNat]
      omega
    · cases h

theorem Stepper.noted_apply (hn : o.Noted site t w)
    (h : (Stepper.apply site o p).result w = (.ok o', w')) : o'.Noted site t w' := by
  unfold Stepper.apply at h
  split at h
  · obtain ⟨_, w₁, h₁, h⟩ := Action.result_bind_eq_ok_iff.1 h
    cases h
    exact Stepper.noted_applyAxis hn h₁
  · obtain ⟨o?, w₁, h₁, h⟩ := Action.result_bind_eq_ok_iff.1 h
    split at h
    · cases h
      exact Axis.noted_applySetting? hn h₁
    · cases h

end Device

end ServoBus
