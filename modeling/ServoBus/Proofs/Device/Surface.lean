import ServoBus.Proofs.Axis.Surface
import ServoBus.Proofs.Device.Faults
import ServoBus.Proofs.Device.Held

/-!
# The pins of a device

A device exposes the pins of its axes, one axis after the other, and then the lines of the axes
whose object for the lines is enabled. `DeviceType.surface` lists them for the features that are
enabled on each axis. All of their names differ, so a setup never comes upon a name that is taken.
-/

namespace ServoBus

open Setup (Exposes)
open ServoBus.Action (FailsWith Keeps)

namespace Stepper

/-- The pins of lines by their names within the axis. -/
def shapesOf (direction : Pin.Direction) (lines : List (String × Nat)) : List Pin.Shape :=
  lines.map fun line => ⟨line.1, direction, .bit⟩

/-- The pins of the lines of an axis. -/
def linePins (digitalInputs digitalOutputs : Nat) (enabled : FeatureSet) : List Pin.Shape :=
  (if .digitalInput ∈ enabled then
    shapesOf .output (namedInputs ++ numberedInputs digitalInputs) else []) ++
  if .digitalOutput ∈ enabled then shapesOf .input (numberedOutputs digitalOutputs) else []

end Stepper

namespace DeviceType

/-- The pins of the lines of an axis, if the device has any. -/
def linePins (t : DeviceType) (enabled : FeatureSet) : List Pin.Shape :=
  match t.family with
  | .generic => []
  | .stepper => Stepper.linePins t.digitalInputs t.digitalOutputs enabled

/-- All pins of a device with axes on which these features are enabled. -/
def surface (t : DeviceType) (site : Site) (enabled : List FeatureSet) : List Pin.Shape :=
  Axis.lay site (Axis.pins t.packed) enabled ++ Axis.lay site t.linePins enabled

end DeviceType

variable {μ : Type} [Master μ] {site : Site}

section Lines

namespace Stepper

variable {label : String} {direction : Pin.Direction} {lines : List (String × Nat)}

theorem exposes_addLines :
    Exposes site (addLines (μ := μ) site label direction lines)
      ((shapesOf direction lines).map (Pin.Shape.under site label)) := by
  induction lines with
  | nil => exact Setup.exposes_pure []
  | cons line lines ih =>
    exact (Setup.exposes_addPin label ⟨line.1, direction, .bit⟩).bind fun _ =>
      ih.before fun _ => Setup.exposes_pure _

/-- The lines of an object have pins exactly if the object has an entry. -/
theorem exposes_addPacked {ref? : Option RegRef} {p : Prop} [Decidable p]
    (h : (∃ ref, ref? = some ref) ↔ p) :
    Exposes site (addPacked (μ := μ) site label direction lines ref?)
      ((if p then shapesOf direction lines else []).map (Pin.Shape.under site label)) := by
  cases ref? with
  | none =>
    have hp : ¬ p := fun hp => by cases (h.2 hp).choose_spec
    rw [if_neg hp]
    exact Setup.exposes_pure []
  | some ref =>
    rw [if_pos (h.1 ⟨ref, rfl⟩)]
    exact exposes_addLines.before fun _ => Setup.exposes_pure _

theorem exposes_addChannelLines {l : List (Axis.Channel × Axis.ChannelOptions)} (rig : Rig)
    (h : ∀ x ∈ l, ∀ f ∈ [Feature.digitalInput, .digitalOutput],
      (∃ ref, Axis.Channel.entry? x.1 f = some ref) ↔ f ∈ x.1.enabled) :
    Exposes site (addChannelLines (μ := μ) site rig l)
      (l.flatMap fun x => (linePins x.2.digitalInputs x.2.digitalOutputs x.1.enabled).map
        (Pin.Shape.under site x.2.label)) := by
  induction l generalizing rig with
  | nil => exact Setup.exposes_pure rig
  | cons x l ih =>
    have hx := h x List.mem_cons_self
    rw [List.flatMap_cons, linePins, List.map_append, List.append_assoc]
    refine (exposes_addPacked (hx .digitalInput (by simp))).bind fun inputs => ?_
    refine (exposes_addPacked (hx .digitalOutput (by simp))).bind fun outputs => ?_
    exact ih _ fun y hy => h y (List.mem_cons_of_mem _ hy)

end Stepper

/-- A packed object of the process image has an entry exactly if it is enabled. -/
theorem Axis.Channel.Wired.exists_entry_iff {n : Nat} {o : ChannelOptions}
    {regs : Registrations} {pins : PinTable} {c : Channel} {f : Feature}
    (h : c.Wired site n o regs pins) (hf : f ∈ o.packed) {d : DriveObject}
    (hd : f.object? = some d) (ht : d.transfer ≠ .service) :
    (∃ ref, c.entry? f = some ref) ↔ f ∈ c.enabled := by
  constructor
  · rintro ⟨ref, he⟩
    obtain ⟨e, he, -⟩ := h.entry?_eq_some hf he
    exact (mem_mappedObjects.1 he).1
  · intro hen
    exact h.entry?_isSome hf (mem_mappedObjects.2 ⟨hen, hd, ht⟩)

end Lines

section Device

variable {t : DeviceType} {settings : List Param.Setting} {o : Axis.Options} {rig : Rig}
  {w w₁ w' : Workspace μ}

/-- What is enabled on the channels is what their options ask for, and what this implies. -/
theorem Axis.map_enabled_of_configure {cs : List Axis.Channel}
    (h : (Axis.configure site o).result w = (.ok cs, w')) :
    cs.map (·.enabled) = o.active.map (·.requested.resolve) := by
  obtain ⟨hlen, hwired⟩ := Axis.wired_of_configure h
  refine List.ext_getElem (by simpa using hlen) fun n hn hn' => ?_
  rw [List.length_map] at hn hn'
  obtain ⟨q, hq, hc⟩ := hwired n cs[n] (List.getElem?_eq_getElem hn)
  rw [List.getElem_map, List.getElem_map, hc.enabled]
  rw [List.getElem?_eq_getElem hn', Option.some.injEq] at hq
  rw [hq]

namespace DeviceType

/-- The options of a channel have what the device type fixes for all channels. -/
def Equips (t : DeviceType) (c : Axis.ChannelOptions) : Prop :=
  c.packed = t.packed ∧ (t.family = .stepper →
    c.digitalInputs = t.digitalInputs ∧ c.digitalOutputs = t.digitalOutputs)

/-- Whatever settings are applied, a device type equips all its channels, and does not label
them. -/
theorem equips_of_result_settings
    (h : (settings.foldlM (t.apply site) t.initialOptions).result w = (.ok o, w')) :
    o.Uniform (·.label) "srv" ∧ ∀ c ∈ o.numberLabels.active, t.Equips c := by
  unfold Equips packed
  cases hfamily : t.family with
  | generic =>
    simp only [apply_eq_generic hfamily, initialOptions, hfamily] at h ⊢
    have hfixed := (Action.of_result_foldlM (fun _ _ _ _ _ => Generic.fixed_apply)
      Generic.fixed_initialOptions h).numberLabels
    refine ⟨Action.of_result_foldlM (fun _ _ _ _ _ => Generic.uniform_apply fun _ _ _ => rfl)
      Generic.labels_initialOptions h, fun c hc => ⟨?_, fun hstepper => ?_⟩⟩
    · exact congrArg Prod.fst (hfixed.of_mem_active hc)
    · cases hstepper
  | stepper =>
    simp only [apply_eq_stepper hfamily, initialOptions, hfamily] at h ⊢
    have hfixed := (Action.of_result_foldlM (fun _ _ _ _ _ => Stepper.fixed_apply)
      (Stepper.fixed_initialOptions _ _ _) h).numberLabels
    refine ⟨Action.of_result_foldlM (fun _ _ _ _ _ => Stepper.uniform_apply fun _ _ _ => rfl)
      (Stepper.labels_initialOptions _ _ _) h, fun c hc => ?_⟩
    have hc := hfixed.of_mem_active hc
    exact ⟨congrArg Prod.fst hc, fun _ =>
      ⟨congrArg (fun x => x.2.1) hc, congrArg (fun x => x.2.2) hc⟩⟩

theorem keeps_apply (t : DeviceType) (o : Axis.Options) (p : Param.Setting) :
    Keeps (Setup.made (μ := μ)) (t.apply site o p) := by
  cases hfamily : t.family with
  | generic =>
    rw [apply_eq_generic hfamily]
    exact Generic.keeps_apply o p
  | stepper =>
    rw [apply_eq_stepper hfamily]
    exact Stepper.keeps_apply o p

/-- The lines of channels that were configured. -/
theorem exposes_addLines {cs : List Axis.Channel}
    (hcs : (Axis.configure site o).result w = (.ok cs, w')) (ho : ∀ c ∈ o.active, t.Equips c) :
    Exposes (μ := μ) site (t.addLines site cs o.active)
      (o.active.flatMap fun c =>
        (t.linePins c.requested.resolve).map (Pin.Shape.under site c.label)) := by
  obtain ⟨hlen, hwired⟩ := Axis.wired_of_configure hcs
  have hzip : ∀ x ∈ cs.zip o.active, t.Equips x.2 ∧ ∃ n,
      x.1.Wired site n x.2 w'.regs w'.pins := by
    rintro ⟨c, q⟩ hx
    obtain ⟨n, hn⟩ := List.mem_iff_getElem?.1 hx
    obtain ⟨hc, hq⟩ := List.getElem?_zip_eq_some.1 hn
    obtain ⟨q', hq', hwired⟩ := hwired n c hc
    cases hq.symm.trans hq'
    exact ⟨ho q (List.mem_of_getElem? hq), n, hwired⟩
  unfold addLines linePins
  cases hfamily : t.family with
  | generic =>
    rw [List.flatMap_eq_nil_iff.2 fun _ _ => List.map_nil]
    exact Setup.exposes_pure _
  | stepper =>
    have hentries : ∀ x ∈ cs.zip o.active, ∀ f ∈ [Feature.digitalInput, .digitalOutput],
        (∃ ref, Axis.Channel.entry? x.1 f = some ref) ↔ f ∈ x.1.enabled := by
      intro x hx f hf
      obtain ⟨⟨hpacked, -⟩, n, hwired⟩ := hzip x hx
      have hmem : f ∈ x.2.packed := by
        rw [hpacked, mem_packed_iff]
        exact ⟨hfamily, by simpa [or_comm] using hf⟩
      simp only [List.mem_cons, List.not_mem_nil, or_false] at hf
      rcases hf with rfl | rfl
      · exact hwired.exists_entry_iff hmem rfl (by decide)
      · exact hwired.exists_entry_iff hmem rfl (by decide)
    have hlines : (o.active.flatMap fun c =>
        (Stepper.linePins t.digitalInputs t.digitalOutputs c.requested.resolve).map
          (Pin.Shape.under site c.label)) = (cs.zip o.active).flatMap fun x =>
            (Stepper.linePins x.2.digitalInputs x.2.digitalOutputs x.1.enabled).map
              (Pin.Shape.under site x.2.label) := by
      conv_lhs => rw [← List.map_snd_zip (Nat.le_of_eq hlen.symm), List.flatMap_map]
      refine List.flatMap_congr fun x hx => ?_
      obtain ⟨⟨-, hcounts⟩, n, hwired⟩ := hzip x hx
      rw [(hcounts hfamily).1, (hcounts hfamily).2, hwired.enabled]
    rw [hlines]
    exact Stepper.exposes_addChannelLines _ hentries

/-- Channels and lines of a device expose its surface. -/
theorem exposes_rig (hlabels : o.Uniform (·.label) "srv")
    (hequips : ∀ c ∈ o.numberLabels.active, t.Equips c) :
    Exposes (μ := μ) site
      (do
        let cs ← Axis.configure site o.numberLabels
        t.addLines site cs o.numberLabels.active)
      (t.surface site (o.active.map (·.requested.resolve))) := by
  rw [surface, Axis.lay_active hlabels, Axis.lay_active hlabels]
  have hpins : (o.numberLabels.active.flatMap fun c =>
      (Axis.pins t.packed c.requested.resolve).map (Pin.Shape.under site c.label)) =
        o.numberLabels.active.flatMap fun c =>
          (Axis.pins c.packed c.requested.resolve).map (Pin.Shape.under site c.label) :=
    List.flatMap_congr fun c hc => by rw [(hequips c hc).1]
  rw [hpins]
  exact (Axis.exposes_configure _).bind_of_result fun _ _ _ hcs => exposes_addLines hcs hequips

/-- The steps of a setup that succeeded: settings, channels and lines. -/
theorem exists_of_result_setUp (h : (t.setUp site settings).result w = (.ok rig, w')) :
    ∃ o w₁, (settings.foldlM (t.apply site) t.initialOptions).result w = (.ok o, w₁) ∧
      Action.result (do
        let cs ← Axis.configure site o.numberLabels
        t.addLines site cs o.numberLabels.active) w₁ = (.ok rig, w') := by
  rw [result_setUp] at h
  obtain ⟨_, w₀, hidentity, hsettings⟩ := Action.result_bind_eq_ok_iff.1 h
  obtain ⟨o, w₁, ho, hrig⟩ := Action.result_bind_eq_ok_iff.1 hsettings
  rw [eq_of_result_checkIdentity hidentity] at ho
  exact ⟨o, w₁, ho, hrig⟩

omit [Master μ] in
theorem channels_of_result_addLines {cs : List Axis.Channel} {active : List Axis.ChannelOptions}
    (h : (t.addLines site cs active).result w = (.ok rig, w')) : rig.channels = cs := by
  unfold addLines at h
  split at h
  · cases h
    rfl
  · exact (Stepper.of_result_addChannelLines h).1

/-- A device that was set up has the channels that its settings ask for, and these pins behind those
that were there. -/
theorem surface_of_result_setUp (h : (t.setUp site settings).result w = (.ok rig, w')) :
    ∃ o w₁, (settings.foldlM (t.apply site) t.initialOptions).result w = (.ok o, w₁) ∧
      rig.channels.map (·.enabled) = o.active.map (·.requested.resolve) ∧
      w'.pins.shapes =
        w.pins.shapes ++ t.surface site (o.active.map (·.requested.resolve)) := by
  obtain ⟨o, w₁, ho, h⟩ := exists_of_result_setUp h
  obtain ⟨hlabels, hequips⟩ := equips_of_result_settings ho
  have hmade : Setup.made w₁ = Setup.made w :=
    (Action.Moves.foldlM t.keeps_apply settings _).of_result ho
  simp only [Setup.made, Prod.mk.injEq] at hmade
  refine ⟨o, w₁, ho, ?_, ?_⟩
  · obtain ⟨cs, w₂, hcs, hlines⟩ := Action.result_bind_eq_ok_iff.1 h
    rw [channels_of_result_addLines hlines, Axis.map_enabled_of_configure hcs]
    exact Axis.Options.map_active_numberLabels fun _ _ => rfl
  · rw [(exposes_rig hlabels hequips).shapes h, hmade.2.2]

end DeviceType

end Device

end ServoBus
