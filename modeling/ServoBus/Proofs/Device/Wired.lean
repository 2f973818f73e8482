import ServoBus.Device.Registry
import ServoBus.Proofs.Axis.Configure
import ServoBus.Proofs.Axis.Settings
import ServoBus.Proofs.Device.Lines

/-!
# Rigs that are wired

Setting up a device of any type, with whatever settings, gives a rig that is wired: its
channels are, their entries are all that is registered, and the bits that have pins are
those of the digital outputs of a stepper drive. As with channels, only the registered
entries and the shapes of the pins matter.
-/

namespace ServoBus

open ServoBus.Action (Moves Keeps)

/-- The mapped objects that have no pin of their own. -/
def DeviceType.packed (t : DeviceType) : FeatureSet :=
  match t.family with
  | .generic => ∅
  | .stepper => (∅ : FeatureSet).insertMany [.digitalOutput, .digitalInput]

/-- An output object shows its bits instead of its value only for a stepper drive. -/
theorem DeviceType.mem_packed_iff {t : DeviceType} {f : Feature} :
    f ∈ t.packed ↔ t.family = .stepper ∧ (f = .digitalOutput ∨ f = .digitalInput) := by
  unfold packed
  cases t.family with
  | generic => simp [FeatureSet.not_mem_empty]
  | stepper => simp [FeatureSet.mem_insertMany, FeatureSet.not_mem_empty]

namespace Axis.Channel.Wired

variable {site : Site} {n : Nat} {o : ChannelOptions} {regs : Registrations} {pins : PinTable}
  {c : Channel} {f : Feature}

/-- The entry of a packed object is found. -/
theorem entry?_eq_some (h : c.Wired site n o regs pins) (hf : f ∈ o.packed) {ref : RegRef}
    (he : c.entry? f = some ref) :
    ∃ d, (f, d) ∈ mappedObjects c.enabled ∧ regs.Lists ref (objectEntry site c.base d) := by
  obtain ⟨l₁, l₂, heq, -⟩ := List.lookup_eq_some_iff.1 he
  have hmem : (f, ref) ∈ l₁ ++ (f, ref) :: l₂ := List.mem_append_right _ List.mem_cons_self
  rw [← heq] at hmem
  rcases List.mem_append.1 hmem with hm | hm
  · obtain ⟨⟨g, m⟩, hgm, heq⟩ := List.mem_map.1 hm
    cases heq
    rcases List.mem_append.1 hgm with hgm | hgm
    · exact absurd hf (h.inputs _ _ hgm).1
    · exact absurd hf (h.outputs _ _ hgm).1
  · exact (h.packed _ _ hm).2

theorem entry?_isSome (h : c.Wired site n o regs pins) (hf : f ∈ o.packed) {d : DriveObject}
    (hd : (f, d) ∈ mappedObjects c.enabled) : ∃ ref, c.entry? f = some ref := by
  rw [← Option.isSome_iff_exists]
  rcases h.all f d hd with ⟨-, ref, hm⟩ | ⟨hn, -⟩ | ⟨hn, -⟩
  · exact List.lookup_isSome_iff.2 ⟨(f, ref), List.mem_append_right _ hm, beq_self_eq_true f⟩
  · exact absurd hf hn
  · exact absurd hf hn

/-- Every enabled object of the process image is registered. -/
theorem exists_lists (h : c.Wired site n o regs pins) {d : DriveObject}
    (hd : (f, d) ∈ mappedObjects c.enabled) :
    ∃ ref, regs.Lists ref (objectEntry site c.base d) := by
  have heq {e : DriveObject} (he : (f, e) ∈ mappedObjects c.enabled) : e = d := by
    have hd' := (mem_mappedObjects.1 hd).2.1
    rw [(mem_mappedObjects.1 he).2.1] at hd'
    exact Option.some_inj.1 hd'
  rcases h.all f d hd with ⟨-, ref, hm⟩ | ⟨-, -, m, hm⟩ | ⟨-, -, m, hm⟩
  · obtain ⟨-, e, he, hl⟩ := h.packed f ref hm
    rw [heq he] at hl
    exact ⟨ref, hl⟩
  · obtain ⟨-, e, he, hw⟩ := h.inputs f m hm
    rw [← heq (List.mem_append_left _ he)]
    exact ⟨m.entry, hw.entry⟩
  · obtain ⟨-, e, he, hw⟩ := h.outputs f m hm
    rw [← heq (List.mem_append_right _ he)]
    exact ⟨m.entry, hw.entry⟩

/-- An output object that is not packed goes from its pin to its entry. -/
theorem exists_output (h : c.Wired site n o regs pins) {d : DriveObject}
    (hd : (f, d) ∈ c.enabled.objects .output) (hf : f ∉ o.packed) :
    ∃ m, (f, m) ∈ c.outputs ∧ m.Wired regs pins (objectEntry site c.base d)
      (pinShape site c.label d.pinName .input d.format) := by
  obtain ⟨-, hobject, htransfer⟩ := FeatureSet.mem_objects.1 hd
  rcases h.all f d (List.mem_append_right _ hd) with ⟨hp, -⟩ | ⟨-, ht, -⟩ | ⟨-, -, m, hm⟩
  · exact absurd hp hf
  · rw [htransfer] at ht
    cases ht
  · obtain ⟨-, e, he, hw⟩ := h.outputs f m hm
    have hed := (FeatureSet.mem_objects.1 he).2.1.symm.trans hobject
    rw [Option.some_inj.1 hed] at hw
    exact ⟨m, hm, hw⟩

end Axis.Channel.Wired

/-- The bits of the digital outputs of a channel, with a pin for each line. -/
def Rig.DrivesLines (site : Site) (t : DeviceType) (regs : Registrations) (pins : PinTable)
    (c : Axis.Channel) (d : DriveObject) (p : PackedBits) : Prop :=
  regs.Lists p.entry (Axis.objectEntry site c.base d) ∧
    Stepper.Shown site c.label .input pins (Stepper.numberedOutputs t.digitalOutputs) p.bits

/-- The rig of a device whose parts refer to their own entries and pins. -/
structure Rig.Wired (site : Site) (t : DeviceType) (regs : Registrations) (pins : PinTable)
    (rig : Rig) : Prop where
  channels : ∀ (n : Nat) c, rig.channels[n]? = some c → ∃ o, o.packed = t.packed ∧
    c.Wired site n o regs pins
  outputs : ∀ p ∈ rig.outputs, t.family = .stepper ∧
    ∃ (n : Nat) (c : Axis.Channel) (d : DriveObject), rig.channels[n]? = some c ∧
      (.digitalOutput, d) ∈ Axis.mappedObjects c.enabled ∧
        Rig.DrivesLines site t regs pins c d p
  lines : t.family = .stepper → ∀ (n : Nat) c d, rig.channels[n]? = some c →
    (.digitalOutput, d) ∈ Axis.mappedObjects c.enabled →
      ∃ p ∈ rig.outputs, Rig.DrivesLines site t regs pins c d p
  count : rig.channels.length ≤ Param.maxChannels
  names : pins.names.Nodup
  addresses : (regs.wanted.map (·.address)).Nodup
  widths : ∀ e ∈ regs.wanted, e.width ∈ [8, 16, 32]

variable {μ : Type} [Master μ] {site : Site} {settings : List Param.Setting}

/-- A device is set up as its family is. -/
theorem DeviceType.cases_of_result_setUp {t : DeviceType} {rig : Rig} {w w' : Workspace μ}
    (h : (t.setUp site settings).result w = (.ok rig, w')) :
    t.family = .generic ∧ (Generic.setUp site settings).result w = (.ok rig, w') ∨
      t.family = .stepper ∧ (Stepper.setUp t site settings).result w = (.ok rig, w') := by
  unfold DeviceType.setUp at h
  cases hfamily : t.family with
  | generic =>
    rw [hfamily] at h
    exact .inl ⟨rfl, h⟩
  | stepper =>
    rw [hfamily] at h
    exact .inr ⟨rfl, h⟩

/-- The steps of a setup that succeeded: settings and channels. -/
theorem Generic.exists_of_result_setUp {rig : Rig} {w w' : Workspace μ}
    (h : (Generic.setUp site settings).result w = (.ok rig, w')) :
    ∃ o w₁ cs, Action.result (settings.foldlM (Generic.apply site) Generic.initialOptions) w =
        (.ok o, w₁) ∧
      (Axis.configure site o.numberLabels).result w₁ = (.ok cs, w') ∧ rig = { channels := cs } := by
  unfold Generic.setUp at h
  split at h
  · cases h
  · simp only [Action.result_bind_eq_ok_iff, Action.result_pure_eq_ok_iff] at h
    obtain ⟨o, w₁, ho, cs, w₂, hcs, rfl, rfl⟩ := h
    exact ⟨o, w₁, cs, ho, hcs, rfl⟩

/-- The steps of a setup that succeeded: settings, channels and lines. -/
theorem Stepper.exists_of_result_setUp {t : DeviceType} {rig : Rig} {w w' : Workspace μ}
    (h : (Stepper.setUp t site settings).result w = (.ok rig, w')) :
    ∃ o w₁ cs w₂, Action.result (settings.foldlM (Stepper.apply site)
        (Stepper.initialOptions t.axes t.digitalInputs t.digitalOutputs)) w = (.ok o, w₁) ∧
      (Axis.configure site o.numberLabels).result w₁ = (.ok cs, w₂) ∧
        (Stepper.addChannelLines site { channels := cs } (cs.zip o.numberLabels.active)).result
          w₂ = (.ok rig, w') := by
  unfold Stepper.setUp at h
  simp only [Action.result_bind_eq_ok_iff] at h
  obtain ⟨o, w₁, ho, cs, w₂, hcs, hlines⟩ := h
  exact ⟨o, w₁, cs, w₂, ho, hcs, hlines⟩

theorem Generic.keeps_apply (o : Axis.Options) (p : Param.Setting) :
    Keeps (Setup.made (μ := μ)) (Generic.apply site o p) := by
  unfold Generic.apply
  split
  · exact Action.moves_ofChecked _
  · refine Axis.keeps_applySetting?.bind fun o? => ?_
    split
    · exact Action.moves_pure _
    · exact Action.moves_ofChecked _

theorem Stepper.keeps_applyAxis (p : Param.Setting) (q : Stepper.AxisParam) :
    Keeps (Setup.made (μ := μ)) (Stepper.applyAxis site p q) := by
  unfold Stepper.applyAxis
  cases q with
  | peakCurrentCoarse => exact Setup.keeps_writeParam _ _ _ _
  | peakCurrentFine => exact Setup.keeps_writeParam _ _ _ _
  | controlMode =>
    dsimp only
    split
    · exact Setup.keeps_writeParam _ _ _ _
    · exact Action.moves_ofChecked _

theorem Stepper.keeps_apply (o : Axis.Options) (p : Param.Setting) :
    Keeps (Setup.made (μ := μ)) (Stepper.apply site o p) := by
  unfold Stepper.apply
  split
  · exact (Stepper.keeps_applyAxis _ _).bind fun _ => Action.moves_pure _
  · refine Axis.keeps_applySetting?.bind fun o? => ?_
    split
    · exact Action.moves_pure _
    · exact Action.moves_ofChecked _

/-- The channels of a drive that was configured, each with its options. -/
theorem Axis.wired_of_configure {o : Axis.Options} {cs : List Axis.Channel} {w w' : Workspace μ}
    (h : (Axis.configure site o).result w = (.ok cs, w')) :
    cs.length = o.active.length ∧ ∀ (n : Nat) c, cs[n]? = some c →
      ∃ q, o.active[n]? = some q ∧ c.Wired site n q w'.regs w'.pins := by
  obtain ⟨-, -, -, hall, -⟩ := Axis.of_result_configure h
  obtain ⟨hlen, hget⟩ := List.forall₂_iff_get.1 hall
  rw [List.length_zipIdx] at hlen
  refine ⟨hlen.symm, ?_⟩
  intro n c hc
  obtain ⟨hn, rfl⟩ := List.getElem?_eq_some_iff.1 hc
  have hn' : n < o.active.length := by rwa [hlen]
  refine ⟨o.active[n], List.getElem?_eq_getElem hn', ?_⟩
  have hw := hget n (by rwa [List.length_zipIdx]) hn
  simpa using hw

/-- From nothing, configuring a drive leaves the entries with the addresses and widths that
a rig has. -/
theorem Axis.entries_of_configure {o : Axis.Options} {cs : List Axis.Channel}
    {w w' : Workspace μ} (hregs : w.regs.entries = [])
    (h : (Axis.configure site o).result w = (.ok cs, w')) :
    o.active.length ≤ Param.maxChannels ∧ (w'.regs.wanted.map (·.address)).Nodup ∧
      ∀ e ∈ w'.regs.wanted, e.width ∈ [8, 16, 32] := by
  obtain ⟨hcount, hregs', -, -⟩ := Axis.of_result_configure h
  have hentries : w'.regs.entries = Axis.driveEntries site o.active.zipIdx := by
    rw [hregs', Registrations.extend, hregs, List.nil_append]
  rw [Registrations.wanted, hentries, List.map_map]
  refine ⟨hcount, Axis.nodup_addresses_driveEntries hcount, ?_⟩
  intro e he
  obtain ⟨r, hr, rfl⟩ := List.mem_map.1 he
  rw [Registration.width_unplaced]
  exact Axis.width_of_mem_driveEntries hr

section Uniform

variable {α : Type} {view : Axis.ChannelOptions → α} {x : α} {o o' : Axis.Options}
  {p : Param.Setting} {w w' : Workspace μ}

theorem Generic.uniform_apply
    (hview : ∀ (c : Axis.ChannelOptions) requested sent, view { c with requested, sent } = view c)
    (ho : o.Uniform view x) (h : (Generic.apply site o p).result w = (.ok o', w')) :
    o'.Uniform view x := by
  unfold Generic.apply at h
  split at h
  · next q _ =>
    rw [Action.result_ofChecked_eq_ok_iff] at h
    obtain ⟨h, -⟩ := h
    cases q <;> simp only [applyDrive] at h
    case increment =>
      split at h
      · cases h
        exact ho
      · cases h
    all_goals
      cases h
      exact ho
  · obtain ⟨o?, w₁, h₁, h⟩ := Action.result_bind_eq_ok_iff.1 h
    split at h
    · cases h
      exact Axis.uniform_applySetting? hview ho h₁
    · cases h

theorem Stepper.uniform_apply
    (hview : ∀ (c : Axis.ChannelOptions) requested sent, view { c with requested, sent } = view c)
    (ho : o.Uniform view x) (h : (Stepper.apply site o p).result w = (.ok o', w')) :
    o'.Uniform view x := by
  unfold Stepper.apply at h
  split at h
  · obtain ⟨_, w₁, -, h⟩ := Action.result_bind_eq_ok_iff.1 h
    cases h
    exact ho
  · obtain ⟨o?, w₁, h₁, h⟩ := Action.result_bind_eq_ok_iff.1 h
    split at h
    · cases h
      exact Axis.uniform_applySetting? hview ho h₁
    · cases h

end Uniform

theorem Generic.fixed_apply {x : FeatureSet × Nat × Nat} {o o' : Axis.Options}
    {p : Param.Setting} {w w' : Workspace μ} (ho : o.Fixed x)
    (h : (Generic.apply site o p).result w = (.ok o', w')) : o'.Fixed x :=
  Generic.uniform_apply (fun _ _ _ => rfl) ho h

theorem Stepper.fixed_apply {x : FeatureSet × Nat × Nat} {o o' : Axis.Options}
    {p : Param.Setting} {w w' : Workspace μ} (ho : o.Fixed x)
    (h : (Stepper.apply site o p).result w = (.ok o', w')) : o'.Fixed x :=
  Stepper.uniform_apply (fun _ _ _ => rfl) ho h

theorem Generic.fixed_initialOptions : Generic.initialOptions.Fixed (∅, 0, 0) :=
  (Axis.uniform_default Axis.ChannelOptions.fixture).mapChannels fun _ hc => hc

theorem Stepper.fixed_initialOptions (axes digitalInputs digitalOutputs : Nat) :
    (Stepper.initialOptions axes digitalInputs digitalOutputs).Fixed
      ((∅ : FeatureSet).insertMany [.digitalOutput, .digitalInput], digitalInputs,
        digitalOutputs) := by
  refine (Axis.uniform_default Axis.ChannelOptions.fixture).mapChannels ?_
  intro c hc
  have hp : c.packed = ∅ := congrArg Prod.fst hc
  simp only [Axis.ChannelOptions.fixture, hp]

/-- A rig of channels alone is wired if nothing is packed bit by bit. -/
theorem Generic.wired_of_result_setUp {t : DeviceType} (ht : t.family = .generic) {rig : Rig}
    {w w' : Workspace μ} (hregs : w.regs.entries = []) (hpins : w.pins.names.Nodup)
    (h : (Generic.setUp site settings).result w = (.ok rig, w')) :
    rig.Wired site t w'.regs w'.pins := by
  have hpacked : t.packed = ∅ := by rw [DeviceType.packed, ht]
  obtain ⟨o, w₁, cs, ho, hcs, rfl⟩ := Generic.exists_of_result_setUp h
  have hfixed := (Action.of_result_foldlM (fun _ _ _ _ _ => Generic.fixed_apply)
    Generic.fixed_initialOptions ho).numberLabels
  have hmade := Setup.decorates_of_made_eq
    ((Action.Moves.foldlM Generic.keeps_apply settings _).of_result ho)
  have hregs₁ : w₁.regs.entries = [] := by rw [hmade.1, hregs]
  obtain ⟨hlen, hwired⟩ := Axis.wired_of_configure hcs
  obtain ⟨hcount, haddr, hwidth⟩ := Axis.entries_of_configure hregs₁ hcs
  constructor
  case channels =>
    intro n c hc
    obtain ⟨q, hq, hw⟩ := hwired n c hc
    have hfix := hfixed.of_mem_active (List.mem_of_getElem? hq)
    exact ⟨q, (congrArg Prod.fst hfix).trans hpacked.symm, hw⟩
  case outputs =>
    intro p hp
    cases hp
  case lines =>
    intro hs
    rw [ht] at hs
    cases hs
  case count =>
    show cs.length ≤ _
    rw [hlen]
    exact hcount
  case names => exact (Axis.of_result_configure hcs).2.2.1.2 (hmade.2.2 hpins)
  case addresses => exact haddr
  case widths => exact hwidth

/-- A wired channel of a stepper drive, with the options that fit to the drive. -/
def Stepper.Equipped (site : Site) (t : DeviceType) (n : Nat) (q : Axis.ChannelOptions)
    (regs : Registrations) (pins : PinTable) (c : Axis.Channel) : Prop :=
  q.fixture = (t.packed, t.digitalInputs, t.digitalOutputs) ∧ c.Wired site n q regs pins

section Equipped

variable {t : DeviceType} {n : Nat} {q : Axis.ChannelOptions} {regs : Registrations}
  {pins : PinTable} {c : Axis.Channel} {entry : RegRef} {d : DriveObject} {p : PackedBits}

theorem Stepper.Equipped.mem_packed (h : Stepper.Equipped site t n q regs pins c)
    (ht : t.family = .stepper) : Feature.digitalOutput ∈ q.packed := by
  have hpacked : q.packed = t.packed := congrArg Prod.fst h.1
  rw [hpacked, DeviceType.mem_packed_iff]
  exact ⟨ht, .inl rfl⟩

/-- The lines of a channel with the numbers of lines that the device has. -/
theorem Stepper.Equipped.drives (h : Stepper.Equipped site t n q regs pins c)
    (hout : Stepper.OutputLines site pins (c, q) entry p)
    (hl : regs.Lists entry (Axis.objectEntry site c.base d)) :
    Rig.DrivesLines site t regs pins c d p := by
  obtain ⟨rfl, hshown⟩ := hout
  have hn : q.digitalOutputs = t.digitalOutputs := congrArg (fun x => x.2.2) h.1
  refine ⟨hl, ?_⟩
  rw [h.2.label, ← hn]
  exact hshown

theorem Stepper.Equipped.exists_drives (h : Stepper.Equipped site t n q regs pins c)
    (ht : t.family = .stepper) (he : c.entry? .digitalOutput = some entry)
    (hout : Stepper.OutputLines site pins (c, q) entry p) :
    ∃ d, (.digitalOutput, d) ∈ Axis.mappedObjects c.enabled ∧
      Rig.DrivesLines site t regs pins c d p := by
  obtain ⟨d, hd, hl⟩ := h.2.entry?_eq_some (h.mem_packed ht) he
  exact ⟨d, hd, h.drives hout hl⟩

/-- The object of the output lines is found, and its lines are driven. -/
theorem Stepper.Equipped.exists_entry (h : Stepper.Equipped site t n q regs pins c)
    (ht : t.family = .stepper) (hd : (.digitalOutput, d) ∈ Axis.mappedObjects c.enabled) :
    ∃ entry, c.entry? .digitalOutput = some entry ∧
      ∀ p, Stepper.OutputLines site pins (c, q) entry p →
        Rig.DrivesLines site t regs pins c d p := by
  obtain ⟨entry, he⟩ := h.2.entry?_isSome (h.mem_packed ht) hd
  obtain ⟨e, hde, hl⟩ := h.2.entry?_eq_some (h.mem_packed ht) he
  cases (Axis.mem_mappedObjects.1 hd).2.1.symm.trans (Axis.mem_mappedObjects.1 hde).2.1
  exact ⟨entry, he, fun p hout => h.drives hout hl⟩

end Equipped

/-- The lines that are added behind the channels leave these wired. -/
theorem Stepper.exists_equipped {t : DeviceType} {o : Axis.Options} {cs : List Axis.Channel}
    {l : List (Axis.Channel × Axis.ChannelOptions)} {rig : Rig} {w₁ w₂ w' : Workspace μ}
    (ho : o.Fixed (t.packed, t.digitalInputs, t.digitalOutputs))
    (hcs : (Axis.configure site o).result w₁ = (.ok cs, w₂))
    (hlines : (Stepper.addChannelLines site { channels := cs } l).result w₂ = (.ok rig, w'))
    {n : Nat} {c : Axis.Channel} (hc : cs[n]? = some c) :
    ∃ q, o.active[n]? = some q ∧ Stepper.Equipped site t n q w'.regs w'.pins c := by
  obtain ⟨hregs, hgrow⟩ : Setup.Decorates w₂ w' :=
    (Stepper.moves_addChannelLines _ _).of_result hlines
  obtain ⟨q, hq, hw⟩ := (Axis.wired_of_configure hcs).2 n c hc
  refine ⟨q, hq, ho.of_mem_active (List.mem_of_getElem? hq), ?_⟩
  rw [hregs]
  exact hw.mono List.prefix_rfl hgrow

theorem Stepper.wired_of_result_setUp {t : DeviceType} (ht : t.family = .stepper) {rig : Rig}
    {w w' : Workspace μ} (hregs : w.regs.entries = []) (hpins : w.pins.names.Nodup)
    (h : (Stepper.setUp t site settings).result w = (.ok rig, w')) :
    rig.Wired site t w'.regs w'.pins := by
  have hpacked : t.packed = (∅ : FeatureSet).insertMany [.digitalOutput, .digitalInput] := by
    rw [DeviceType.packed, ht]
  obtain ⟨o, w₁, cs, w₂, ho, hcs, hlines⟩ := Stepper.exists_of_result_setUp h
  have hfixed := (Action.of_result_foldlM (fun _ _ _ _ _ => Stepper.fixed_apply)
    (Stepper.fixed_initialOptions _ _ _) ho).numberLabels
  rw [← hpacked] at hfixed
  have hmade := Setup.decorates_of_made_eq
    ((Action.Moves.foldlM Stepper.keeps_apply settings _).of_result ho)
  have hregs₁ : w₁.regs.entries = [] := by rw [hmade.1, hregs]
  have hlen := (Axis.wired_of_configure hcs).1
  obtain ⟨hcount, haddr, hwidth⟩ := Axis.entries_of_configure hregs₁ hcs
  obtain ⟨hregs', hgrow⟩ : Setup.Decorates w₂ w' :=
    (Stepper.moves_addChannelLines _ _).of_result hlines
  obtain ⟨hchannels, -, hsound, hcomplete, -⟩ := Stepper.of_result_addChannelLines hlines
  have hchannels : rig.channels = cs := hchannels
  rw [← hregs'] at haddr hwidth
  have hequipped (n : Nat) (c : Axis.Channel) (hc : cs[n]? = some c) :=
    Stepper.exists_equipped hfixed hcs hlines hc
  constructor
  case channels =>
    intro n c hc
    rw [hchannels] at hc
    obtain ⟨q, -, hq, hw⟩ := hequipped n c hc
    exact ⟨q, congrArg Prod.fst hq, hw⟩
  case outputs =>
    intro p hp
    rcases hsound p hp with hp | ⟨⟨c, q⟩, hx, entry, he, hout⟩
    · cases hp
    · obtain ⟨n, hn⟩ := List.mem_iff_getElem?.1 hx
      obtain ⟨hc, hq⟩ := List.getElem?_zip_eq_some.1 hn
      obtain ⟨q', hq', hc'⟩ := hequipped n c hc
      cases hq.symm.trans hq'
      obtain ⟨d, hd, hdrives⟩ := hc'.exists_drives ht he hout
      rw [← hchannels] at hc
      exact ⟨ht, n, c, d, hc, hd, hdrives⟩
  case lines =>
    intro _ n c d hc hd
    rw [hchannels] at hc
    obtain ⟨q, hq, hc'⟩ := hequipped n c hc
    obtain ⟨entry, he, hdrives⟩ := hc'.exists_entry ht hd
    have hx : (c, q) ∈ cs.zip o.numberLabels.active :=
      List.mem_iff_getElem?.2 ⟨n, List.getElem?_zip_eq_some.2 ⟨hc, hq⟩⟩
    obtain ⟨p, hp, hout⟩ := hcomplete _ hx entry he
    exact ⟨p, hp, hdrives p hout⟩
  case count =>
    rw [hchannels, hlen]
    exact hcount
  case names =>
    exact hgrow.2 ((Axis.of_result_configure hcs).2.2.1.2 (hmade.2.2 hpins))
  case addresses => exact haddr
  case widths => exact hwidth

/-- Setting up a device from nothing gives a wired rig, whatever its type and its settings
are. -/
theorem DeviceType.wired_of_result_setUp {t : DeviceType} {rig : Rig} {w w' : Workspace μ}
    (hregs : w.regs.entries = []) (hpins : w.pins.names.Nodup)
    (h : (t.setUp site settings).result w = (.ok rig, w')) :
    rig.Wired site t w'.regs w'.pins := by
  rcases DeviceType.cases_of_result_setUp h with ⟨hfamily, h⟩ | ⟨hfamily, h⟩
  · exact Generic.wired_of_result_setUp hfamily hregs hpins h
  · exact Stepper.wired_of_result_setUp hfamily hregs hpins h

end ServoBus
