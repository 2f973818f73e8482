import ServoBus.Axis.Param
import ServoBus.Device.Stepper
import ServoBus.Device.Generic
import ServoBus.Proofs.Setup

/-!
# Applying settings

Settings are applied before anything of a slave is made. They are sent to the master or
change the options of a channel, but whatever they are, no entry and no pin comes from
them, and which objects of a channel are packed and how many lines it has stays as the
device has it.
-/

namespace ServoBus

open ServoBus.Action (Keeps)

/-- What holds of the value and the state is kept through a loop that keeps it in every step. -/
theorem Action.holds_of_result_foldlM {σ α β : Type} {P : β → σ → Prop} {f : β → α → Action σ β}
    (hf : ∀ b a s b' t, P b s → result (f b a) s = (.ok b', t) → P b' t) {as : List α} {b b' : β}
    {s t : σ} (hb : P b s) (h : result (as.foldlM f b) s = (.ok b', t)) : P b' t := by
  induction as generalizing b s with
  | nil =>
    rw [List.foldlM_nil, result_pure_eq_ok_iff] at h
    rwa [h.1, h.2]
  | cons a as ih =>
    rw [List.foldlM_cons, result_bind_eq_ok_iff] at h
    obtain ⟨b₁, s₁, h₁, h⟩ := h
    exact ih (hf b a s b₁ s₁ hb h₁) h

/-- A property of the value is kept, whatever the state is. -/
theorem Action.of_result_foldlM {σ α β : Type} {P : β → Prop} {f : β → α → Action σ β}
    (hf : ∀ b a s b' t, P b → result (f b a) s = (.ok b', t) → P b') {as : List α} {b b' : β}
    {s t : σ} (hb : P b) (h : result (as.foldlM f b) s = (.ok b', t)) : P b' :=
  holds_of_result_foldlM (P := fun b _ => P b) hf hb h

namespace Axis

/-- All channels look the same through a view. -/
def Options.Uniform {α : Type} (view : ChannelOptions → α) (x : α) (o : Options) : Prop :=
  ∀ (i : Nat) (h : i < Param.maxChannels), view o.channel[i] = x

namespace Options.Uniform

variable {α β : Type} {view : ChannelOptions → α} {x : α} {o : Options}

theorem modifyChannel (h : o.Uniform view x) (ch : Fin Param.maxChannels)
    {f : ChannelOptions → ChannelOptions} (hf : ∀ c, view (f c) = view c) :
    (o.modifyChannel ch f).Uniform view x := by
  intro i hi
  simp only [Options.modifyChannel, Fin.getElem_fin, Vector.getElem_set]
  split
  · rw [hf]
    exact h ch ch.isLt
  · exact h i hi

theorem mapChannels {y : α} (h : o.Uniform view x) {f : ChannelOptions → ChannelOptions}
    (hf : ∀ c, view c = x → view (f c) = y) : (o.mapChannels f).Uniform view y := by
  intro i hi
  simp only [Options.mapChannels, Vector.getElem_map]
  exact hf _ (h i hi)

theorem numberLabels (h : o.Uniform view x)
    (hview : ∀ (c : ChannelOptions) label, view { c with label } = view c) :
    o.numberLabels.Uniform view x := by
  unfold Options.numberLabels
  split
  · intro i hi
    simp only [Vector.getElem_mapIdx]
    split
    · rw [hview]
      exact h i hi
    · exact h i hi
  · exact h

theorem of_mem_active (h : o.Uniform view x) {c : ChannelOptions} (hc : c ∈ o.active) :
    view c = x := by
  have hc := List.mem_of_mem_take hc
  obtain ⟨i, hi, rfl⟩ := List.mem_iff_getElem.1 hc
  rw [Vector.length_toList] at hi
  exact h i hi

end Options.Uniform

/-- The label of the channel with this number: an only channel needs none. -/
def channelLabel (channels n : Nat) : String := if 1 < channels then s!"srv-{n + 1}" else "srv"

@[simp] theorem Options.channels_numberLabels (o : Options) :
    o.numberLabels.channels = o.channels := by
  unfold numberLabels
  split <;> rfl

/-- A channel in use has the label that goes with its number. -/
theorem Options.Uniform.label_of_active {o : Options} (h : o.Uniform (·.label) "srv") {n : Nat}
    {c : ChannelOptions} (hc : o.numberLabels.active[n]? = some c) :
    c.label = channelLabel o.numberLabels.active.length n := by
  have hmany : 1 < o.numberLabels.active.length ↔ 1 < o.channels := by
    rw [length_active, channels_numberLabels, Param.maxChannels]
    omega
  obtain ⟨hn, hget⟩ := List.getElem?_eq_some_iff.1 hc
  rw [channelLabel, ← hget]
  by_cases hone : 1 < o.channels
  · rw [if_pos (hmany.2 hone)]
    have hn : n < o.channels := by
      rw [length_active, channels_numberLabels] at hn
      omega
    simp [active, Options.numberLabels, hone, hn]
  · rw [if_neg (mt hmany.1 hone), hget]
    have heq : o.numberLabels = o := if_neg hone
    rw [heq] at hc
    exact h.of_mem_active (List.mem_of_getElem? hc)

/-- What a device fixes for a channel: the packed objects, and the numbers of lines. -/
def ChannelOptions.fixture (c : ChannelOptions) : FeatureSet × Nat × Nat :=
  (c.packed, c.digitalInputs, c.digitalOutputs)

/-- All channels have the same fixture. -/
def Options.Fixed (x : FeatureSet × Nat × Nat) (o : Options) : Prop :=
  o.Uniform ChannelOptions.fixture x

theorem Options.Fixed.numberLabels {x : FeatureSet × Nat × Nat} {o : Options} (h : o.Fixed x) :
    o.numberLabels.Fixed x :=
  Uniform.numberLabels h fun _ _ => rfl

/-- Before anything is set, all channels are alike. -/
theorem uniform_default {α : Type} (view : ChannelOptions → α)
    {channels outputLimit inputLimit : Nat} :
    Options.Uniform view (view .standard) { channels, outputLimit, inputLimit } := by
  intro i hi
  simp

section Apply

variable {μ : Type} [Master μ] {site : Site} {o o' : Options} {p : Param.Setting}

theorem keeps_applyObject (q : ObjectParam) :
    Keeps (Setup.made (μ := μ)) (applyObject site o p q) :=
  (Setup.keeps_writeParam _ _ _ _).bind fun _ => Action.moves_pure _

theorem keeps_applyRatio (q : RatioParam) :
    Keeps (Setup.made (μ := μ)) (applyRatio site p q) := by
  refine ((Action.moves_ofChecked _).noting _).bind fun r => ?_
  have hsend : Keeps (Setup.made (μ := μ)) (do
      Setup.writeParam site ⟨base (Param.channelOf p.id) + q.offset, 1⟩
        (payload 32 r.numerator.toInt) p.name
      Setup.writeParam site ⟨base (Param.channelOf p.id) + q.offset, 2⟩
        (payload 32 r.denominator.toNat) p.name) :=
    (Setup.keeps_writeParam _ _ _ _).bind fun _ => Setup.keeps_writeParam _ _ _ _
  split
  · exact (Action.moves_lift _).bind fun _ => (Action.moves_throw _).bind fun _ => hsend
  · exact hsend

theorem keeps_applySetting? : Keeps (Setup.made (μ := μ)) (applySetting? site o p) := by
  unfold applySetting?
  extract_lets common
  clear_value common
  split
  · exact Action.moves_pure _
  · split
    · split
      · exact Action.moves_pure _
      · exact Action.moves_throw _
    · split
      · exact (keeps_applyObject _).map _
      · exact (keeps_applyRatio _).bind fun _ => Action.moves_pure _
      · exact Action.moves_pure _

/-- A setting adds features to a channel or notes what was sent to it, and nothing else. -/
theorem uniform_applySetting? {α : Type} {view : ChannelOptions → α} {x : α}
    (hview : ∀ (c : ChannelOptions) requested sent, view { c with requested, sent } = view c)
    {w w' : Workspace μ} (ho : o.Uniform view x)
    (h : (applySetting? site o p).result w = (.ok (some o'), w')) : o'.Uniform view x := by
  unfold applySetting? at h
  extract_lets common at h
  clear_value common
  split at h
  · cases h
  · split at h
    · split at h
      · cases h
        exact ho.modifyChannel _ fun c => hview c _ _
      · cases h
    · split at h
      · obtain ⟨o₁, h₁, heq⟩ := Action.result_map_eq_ok_iff.1 h
        cases heq
        obtain ⟨_, _, -, h₂⟩ := Action.result_bind_eq_ok_iff.1 h₁
        cases h₂
        exact ho.modifyChannel _ fun c => hview c _ _
      · obtain ⟨_, _, -, h₂⟩ := Action.result_bind_eq_ok_iff.1 h
        cases h₂
        exact ho
      · cases h

end Apply

end Axis

end ServoBus
