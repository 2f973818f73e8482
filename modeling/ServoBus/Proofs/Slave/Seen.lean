import ServoBus.Proofs.Axis.Pins
import ServoBus.Proofs.Slave.Handles

/-!
# What a rig sees

All references to pins that a rig holds are different ones, and it has a line for every bit of
an input object that shows its bits. So in the input half of a cycle no pin is set twice, and
every pin that should be set is. As with what a rig holds, this is so after an activation and
does not change until the next one.
-/

namespace ServoBus

variable {μ : Type} {site : Site} {w w' : Workspace μ}

/-! ## Lines -/

namespace PackedBits

def pinRefs (p : PackedBits) : List PinRef := p.bits.map (·.2)

end PackedBits

namespace Rig

/-- The references to pins of lines. -/
def lineRefs (r : Rig) : List PinRef := (r.inputs ++ r.outputs).flatMap (·.pinRefs)

theorem pinRefs_eq (r : Rig) : r.pinRefs = r.channels.flatMap (·.pinRefs) ++ r.lineRefs := rfl

theorem perm_lineRefs (r : Rig) (ins outs : List PackedBits) :
    (r.lineRefs ++ (ins.flatMap (·.pinRefs) ++ outs.flatMap (·.pinRefs))).Perm
      (lineRefs { r with inputs := r.inputs ++ ins, outputs := r.outputs ++ outs }) := by
  simp only [lineRefs, List.flatMap_append, List.append_assoc]
  refine List.Perm.append_left _ ?_
  rw [← List.append_assoc, ← List.append_assoc]
  exact List.perm_append_comm.append_right _

end Rig

namespace Stepper

variable {label : String} {direction : Pin.Direction}

theorem adds_of_result_addLines {lines : List (String × Nat)} {bits : List (Nat × PinRef)}
    (h : (addLines site label direction lines).result w = (.ok bits, w')) :
    w.pins.Adds w'.pins (bits.map (·.2)) := by
  induction lines generalizing w w' bits with
  | nil =>
    cases h
    exact .refl _
  | cons line rest ih =>
    obtain ⟨name, bit⟩ := line
    rw [addLines] at h
    simp only [Action.result_bind_eq_ok_iff, Action.result_pure_eq_ok_iff] at h
    obtain ⟨pin, w₁, hpin, others, w₂, hothers, rfl, rfl⟩ := h
    exact (Setup.adds_of_result_addPin hpin).append (ih hothers)

theorem adds_of_result_addPacked {lines : List (String × Nat)} {ref? : Option RegRef}
    {ps : List PackedBits}
    (h : (addPacked site label direction lines ref?).result w = (.ok ps, w')) :
    w.pins.Adds w'.pins (ps.flatMap (·.pinRefs)) := by
  cases ref? with
  | none =>
    cases h
    exact .refl _
  | some entry =>
    rw [addPacked] at h
    simp only [Action.result_bind_eq_ok_iff, Action.result_pure_eq_ok_iff] at h
    obtain ⟨bits, w₁, hbits, rfl, rfl⟩ := h
    simpa [PackedBits.pinRefs] using adds_of_result_addLines hbits

theorem adds_of_result_addChannelLines {l : List (Axis.Channel × Axis.ChannelOptions)}
    {rig rig' : Rig} (h : (addChannelLines site rig l).result w = (.ok rig', w')) :
    ∃ new, w.pins.Adds w'.pins new ∧ (rig.lineRefs ++ new).Perm rig'.lineRefs := by
  induction l generalizing w rig with
  | nil =>
    rw [addChannelLines, Action.result_pure_eq_ok_iff] at h
    obtain ⟨rfl, rfl⟩ := h
    exact ⟨[], .refl _, by rw [List.append_nil]⟩
  | cons x rest ih =>
    obtain ⟨c, o⟩ := x
    rw [addChannelLines] at h
    simp only [Action.result_bind_eq_ok_iff] at h
    obtain ⟨ins, w₁, hins, outs, w₂, houts, hrest⟩ := h
    obtain ⟨new, hnew, hperm⟩ := ih hrest
    refine ⟨ins.flatMap (·.pinRefs) ++ outs.flatMap (·.pinRefs) ++ new,
      ((adds_of_result_addPacked hins).append (adds_of_result_addPacked houts)).append hnew, ?_⟩
    rw [← List.append_assoc]
    exact ((rig.perm_lineRefs ins outs).append_right _).trans hperm

/-- The lines of an input object are among those of the rig. -/
theorem exists_inputs_of_result_addChannelLines
    {l : List (Axis.Channel × Axis.ChannelOptions)} {rig rig' : Rig}
    (h : (addChannelLines site rig l).result w = (.ok rig', w')) :
    rig.inputs ⊆ rig'.inputs ∧
      ∀ x ∈ l, ∀ entry, Axis.Channel.entry? x.1 .digitalInput = some entry →
        ∃ p ∈ rig'.inputs, InputLines site w'.pins x entry p := by
  induction l generalizing w rig with
  | nil =>
    rw [addChannelLines, Action.result_pure_eq_ok_iff] at h
    obtain ⟨rfl, -⟩ := h
    exact ⟨List.Subset.refl _, fun x hx => (List.not_mem_nil hx).elim⟩
  | cons x rest ih =>
    obtain ⟨c, o⟩ := x
    rw [addChannelLines] at h
    simp only [Action.result_bind_eq_ok_iff] at h
    obtain ⟨ins, w₁, hins, outs, w₂, houts, hrest⟩ := h
    obtain ⟨hsub, hex⟩ := ih hrest
    refine ⟨List.Subset.trans (List.subset_append_left _ _) hsub, ?_⟩
    intro x hx entry he
    rcases List.mem_cons.1 hx with rfl | hx
    · obtain ⟨p, hp, hpacks⟩ := (of_result_addPacked hins).2 entry he
      have hgrow : Setup.Decorates w₁ w' :=
        trans_of Setup.Decorates ((moves_addPacked _ _).of_result houts)
          ((moves_addChannelLines rest _).of_result hrest)
      exact ⟨p, hsub (List.mem_append_right _ hp), hpacks.mono hgrow.2⟩
    · exact hex x hx entry he

end Stepper

/-! ## Rigs -/

/-- A rig whose references to pins are different, with a line for every bit of an input object
that shows its bits. -/
structure Rig.Sees (site : Site) (t : DeviceType) (regs : Registrations) (pins : PinTable)
    (rig : Rig) : Prop where
  distinct : rig.pinRefs.Nodup
  formats : ∀ c ∈ rig.channels, c.Formatted
  family : ∀ p ∈ rig.inputs, t.family = .stepper
  lines : t.family = .stepper → ∀ (n : Nat) c d, rig.channels[n]? = some c →
    (.digitalInput, d) ∈ Axis.mappedObjects c.enabled →
      ∃ p ∈ rig.inputs, ShowsLines site t regs pins c d p

section SetUp

variable [Master μ] {settings : List Param.Setting} {t : DeviceType} {rig : Rig}

theorem Generic.adds_of_result_setUp
    (h : (Generic.setUp site settings).result w = (.ok rig, w')) :
    w.pins.Adds w'.pins rig.pinRefs := by
  obtain ⟨o, w₁, cs, ho, hcs, rfl⟩ := Generic.exists_of_result_setUp h
  have hmade := (Action.Moves.foldlM Generic.keeps_apply settings _).of_result ho
  have hadds := (Setup.adds_of_made_eq hmade).append (Axis.adds_of_result_configure hcs)
  simpa [Rig.pinRefs_eq, Rig.lineRefs] using hadds

theorem Stepper.adds_of_result_setUp
    (h : (Stepper.setUp t site settings).result w = (.ok rig, w')) :
    w.pins.Adds w'.pins rig.pinRefs := by
  obtain ⟨o, w₁, cs, w₂, ho, hcs, hlines⟩ := Stepper.exists_of_result_setUp h
  have hmade := (Action.Moves.foldlM Stepper.keeps_apply settings _).of_result ho
  have hchannels : rig.channels = cs := (Stepper.of_result_addChannelLines hlines).1
  obtain ⟨new, hnew, hperm⟩ := adds_of_result_addChannelLines hlines
  rw [Rig.pinRefs_eq, hchannels]
  exact (((Setup.adds_of_made_eq hmade).append (Axis.adds_of_result_configure hcs)).append
    hnew).perm (hperm.append_left _)

theorem DeviceType.adds_of_result_setUp (h : (t.setUp site settings).result w = (.ok rig, w')) :
    w.pins.Adds w'.pins rig.pinRefs := by
  rcases DeviceType.cases_of_result_setUp h with ⟨-, h⟩ | ⟨-, h⟩
  · exact Generic.adds_of_result_setUp h
  · exact Stepper.adds_of_result_setUp h

/-- The object of the input lines is found, and its lines are shown. -/
theorem Stepper.Equipped.exists_inputs {n : Nat} {q : Axis.ChannelOptions} {regs : Registrations}
    {pins : PinTable} {c : Axis.Channel} {d : DriveObject}
    (h : Stepper.Equipped site t n q regs pins c) (ht : t.family = .stepper)
    (hd : (.digitalInput, d) ∈ Axis.mappedObjects c.enabled) :
    ∃ entry, c.entry? .digitalInput = some entry ∧
      ∀ p, Stepper.InputLines site pins (c, q) entry p →
        Rig.ShowsLines site t regs pins c d p := by
  have hpacked : q.packed = t.packed := congrArg Prod.fst h.1
  have hmem : Feature.digitalInput ∈ q.packed := by
    rw [hpacked, DeviceType.mem_packed_iff]
    exact ⟨ht, .inr rfl⟩
  obtain ⟨entry, he⟩ := h.2.entry?_isSome hmem hd
  refine ⟨entry, he, fun p hin => ?_⟩
  obtain ⟨e, hde, hshows⟩ := h.exists_shows ht he hin
  cases (Axis.mem_mappedObjects.1 hd).2.1.symm.trans (Axis.mem_mappedObjects.1 hde).2.1
  exact hshows

theorem Stepper.exists_inputs_of_result_setUp (ht : t.family = .stepper)
    (h : (Stepper.setUp t site settings).result w = (.ok rig, w')) (n : Nat) (c : Axis.Channel)
    (d : DriveObject) (hc : rig.channels[n]? = some c)
    (hd : (.digitalInput, d) ∈ Axis.mappedObjects c.enabled) :
    ∃ p ∈ rig.inputs, Rig.ShowsLines site t w'.regs w'.pins c d p := by
  have hpacked : t.packed = (∅ : FeatureSet).insertMany [.digitalOutput, .digitalInput] := by
    rw [DeviceType.packed, ht]
  obtain ⟨o, w₁, cs, w₂, ho, hcs, hlines⟩ := Stepper.exists_of_result_setUp h
  have hfixed := (Action.of_result_foldlM (fun _ _ _ _ _ => Stepper.fixed_apply)
    (Stepper.fixed_initialOptions _ _ _) ho).numberLabels
  rw [← hpacked] at hfixed
  have hchannels : rig.channels = cs := (Stepper.of_result_addChannelLines hlines).1
  rw [hchannels] at hc
  obtain ⟨q, hq, hc'⟩ := Stepper.exists_equipped hfixed hcs hlines hc
  obtain ⟨entry, he, hshows⟩ := hc'.exists_inputs ht hd
  have hx : (c, q) ∈ cs.zip o.numberLabels.active :=
    List.mem_iff_getElem?.2 ⟨n, List.getElem?_zip_eq_some.2 ⟨hc, hq⟩⟩
  obtain ⟨p, hp, hin⟩ := (exists_inputs_of_result_addChannelLines hlines).2 _ hx entry he
  exact ⟨p, hp, hshows p hin⟩

/-- Behind the channels only pins are added. -/
theorem DeviceType.exists_configure_of_result_setUp
    (h : (t.setUp site settings).result w = (.ok rig, w')) :
    ∃ (o : Axis.Options) (w₁ w₂ : Workspace μ) (added : List PinRef),
      (Axis.configure site o).result w₁ = (.ok rig.channels, w₂) ∧ w₂.pins.Adds w'.pins added := by
  rcases DeviceType.cases_of_result_setUp h with ⟨-, h⟩ | ⟨-, h⟩
  · obtain ⟨o, w₁, cs, -, hcs, rfl⟩ := Generic.exists_of_result_setUp h
    exact ⟨_, w₁, w', [], hcs, .refl _⟩
  · obtain ⟨o, w₁, cs, w₂, -, hcs, hlines⟩ := Stepper.exists_of_result_setUp h
    obtain ⟨added, hadds, -⟩ := Stepper.adds_of_result_addChannelLines hlines
    have hchannels : rig.channels = cs := (Stepper.of_result_addChannelLines hlines).1
    rw [hchannels]
    exact ⟨_, w₁, w₂, added, hcs, hadds⟩

theorem DeviceType.formatted_of_result_setUp
    (h : (t.setUp site settings).result w = (.ok rig, w')) :
    ∀ c ∈ rig.channels, c.Formatted := by
  obtain ⟨o, w₁, w₂, -, hcs, -⟩ := exists_configure_of_result_setUp h
  exact Axis.formatted_of_result_configure hcs

theorem DeviceType.sees_of_result_setUp (h : (t.setUp site settings).result w = (.ok rig, w')) :
    rig.Sees site t w'.regs w'.pins where
  distinct := (adds_of_result_setUp h).nodup
  formats := formatted_of_result_setUp h
  family p hp := by
    rcases DeviceType.cases_of_result_setUp h with ⟨-, h⟩ | ⟨hfamily, -⟩
    · obtain ⟨o, w₁, cs, -, -, rfl⟩ := Generic.exists_of_result_setUp h
      cases hp
    · exact hfamily
  lines ht n c d hc hd := by
    rcases DeviceType.cases_of_result_setUp h with ⟨hfamily, -⟩ | ⟨-, h⟩
    · rw [ht] at hfamily
      cases hfamily
    · exact Stepper.exists_inputs_of_result_setUp ht h n c d hc hd

end SetUp

theorem Axis.Channel.pinRefs_of_eq {c c' : Axis.Channel} (h : c'.idle = c.idle)
    (hs : c'.services.map (·.pin) = c.services.map (·.pin)) : c'.pinRefs = c.pinRefs := by
  have hcontrol : c'.control = c.control := by
    have hc := congrArg Channel.control h
    exact hc
  have hstatus : c'.status = c.status := by
    have hc := congrArg Channel.status h
    exact hc
  have hinputs : c'.inputs = c.inputs := by
    have hc := congrArg Channel.inputs h
    exact hc
  have houtputs : c'.outputs = c.outputs := by
    have hc := congrArg Channel.outputs h
    exact hc
  rw [pinRefs, pinRefs, hcontrol, hstatus, hinputs, houtputs, hs]

/-- Only the writers of a channel change. -/
theorem Axis.Channel.Formatted.of_idle_eq {c c' : Axis.Channel} (h : c.Formatted)
    (hc : c'.idle = c.idle) : c'.Formatted := by
  have hstatus : c'.status = c.status := by
    have hs := congrArg Channel.status hc
    exact hs
  have hinputs : c'.inputs = c.inputs := by
    have hi := congrArg Channel.inputs hc
    exact hi
  constructor
  · rw [hstatus]
    exact h.status
  · rw [hinputs]
    exact h.inputs

namespace Rig

variable {r r' : Rig}

theorem pinRefs_of_eq (hr : r'.idle = r.idle) (hs : r'.servicePins = r.servicePins) :
    r'.pinRefs = r.pinRefs := by
  have hinputs : r'.inputs = r.inputs := by
    have h := congrArg Rig.inputs hr
    exact h
  have houtputs : r'.outputs = r.outputs := by
    have h := congrArg Rig.outputs hr
    exact h
  have hchannels : r'.channels.map (·.pinRefs) = r.channels.map (·.pinRefs) := by
    apply List.ext_getElem?
    intro n
    have hidle := congrArg (·[n]?) (congrArg Rig.channels hr)
    have hpins := congrArg (·[n]?) hs
    simp only [idle, servicePins, List.getElem?_map] at hidle hpins ⊢
    cases hc : r.channels[n]? with
    | none =>
      rw [hc, Option.map_none, Option.map_eq_none_iff] at hidle
      rw [hidle]
    | some c =>
      rw [hc, Option.map_some, Option.map_eq_some_iff] at hidle
      obtain ⟨c', hc', heq⟩ := hidle
      rw [hc, hc', Option.map_some, Option.map_some, Option.some.injEq] at hpins
      rw [hc', Option.map_some, Option.map_some, Axis.Channel.pinRefs_of_eq heq hpins]
  have hflat : r'.channels.flatMap (·.pinRefs) = r.channels.flatMap (·.pinRefs) := by
    rw [List.flatMap_def, List.flatMap_def, hchannels]
  rw [pinRefs_eq, pinRefs_eq, lineRefs, lineRefs, hinputs, houtputs, hflat]

theorem Sees.of_eq {t : DeviceType} {regs regs' : Registrations} {pins pins' : PinTable}
    (h : r.Sees site t regs pins) (hr : r'.idle = r.idle) (hs : r'.servicePins = r.servicePins)
    (hregs : regs'.wanted = regs.wanted) (hpins : pins'.shapes = pins.shapes) :
    r'.Sees site t regs' pins' where
  distinct := by
    rw [pinRefs_of_eq hr hs]
    exact h.distinct
  formats c' hc' := by
    obtain ⟨n, hn⟩ := List.mem_iff_getElem?.1 hc'
    obtain ⟨c, hc, heq⟩ := exists_channel_of_idle_eq hr hn
    exact (h.formats c (List.mem_of_getElem? hc)).of_idle_eq heq.symm
  family p hp := by
    have hinputs : r'.inputs = r.inputs := by
      have h := congrArg Rig.inputs hr
      exact h
    rw [hinputs] at hp
    exact h.family p hp
  lines ht n c' d hc' hd := by
    obtain ⟨c, hc, heq⟩ := exists_channel_of_idle_eq hr hc'
    obtain ⟨hbase, hlabel, henabled⟩ := Axis.Channel.eq_of_idle_eq heq
    have hinputs : r'.inputs = r.inputs := by
      have h := congrArg Rig.inputs hr
      exact h
    rw [← henabled] at hd
    obtain ⟨p, hp, hshow⟩ := h.lines ht n c d hc hd
    have hprefix : regs.wanted <+: regs'.wanted := ⟨[], by rw [hregs, List.append_nil]⟩
    refine ⟨p, hinputs ▸ hp, ?_⟩
    rw [ShowsLines, ← hbase, ← hlabel]
    exact ⟨hshow.1.mono hprefix, hshow.2.mono (.of_shapes_eq hpins)⟩

end Rig

/-! ## Slaves -/

namespace Slave

variable [Master μ]

theorem sees_of_activate {s s' : Slave} {m : μ} {rig : Rig}
    (hs : (s.activate m).value.2.1 = s') (hrig : s'.rig? = some rig) :
    rig.Sees s'.site s'.type s'.regs s'.pins := by
  subst hs
  rw [value_activate] at hrig ⊢
  split at hrig
  · next rig' w hset =>
    cases hrig
    obtain ⟨w₁, managers, w₂, htype, hconf, hloc⟩ := exists_of_result_setUp hset
    have hmade := (Setup.keeps_onMaster _).of_result hconf
    simp only [Action.Same, Setup.made, Prod.mk.injEq] at hmade
    obtain ⟨⟨r, m'⟩, hlocate, rfl⟩ := Action.result_zoom_eq_ok_iff.1 hloc
    have hwanted := (Registrations.of_result_locate hlocate).1
    refine (DeviceType.sees_of_result_setUp htype).of_eq rfl rfl ?_ ?_
    · rw [← hmade.2.1]
      exact hwanted
    · exact congrArg PinTable.shapes hmade.2.2
  · cases hrig

/-- What one rig sees another one sees that has the same. -/
theorem sees_of_hold_eq {s t : Slave} (h : s.hold = t.hold)
    (ht : ∀ rig, t.rig? = some rig → rig.Sees t.site t.type t.regs t.pins) {rig : Rig}
    (hrig : s.rig? = some rig) : rig.Sees s.site s.type s.regs s.pins := by
  simp only [hold, frame, Prod.mk.injEq, Frame.mk.injEq, hrig, Option.map_some] at h
  obtain ⟨⟨hsite, htype, hregs, hshapes, hidle⟩, hpins⟩ := h
  obtain ⟨rig', hrig', hidle⟩ := Option.map_eq_some_iff.1 hidle.symm
  rw [hrig', Option.map_some, Option.some.injEq] at hpins
  rw [hsite, htype, hregs]
  exact (ht rig' hrig').of_eq hidle.symm hpins rfl hshapes

end Slave

end ServoBus
