import ServoBus.Proofs.Axis.Seeds
import ServoBus.Proofs.Slave.Seen

/-!
# What mapped output objects start with

The pin of a mapped output object is added without a value, and from then on the setup only adds
pins or gives values to others. So after an activation it has zero, whatever was sent to the
object: the values that were sent go to the pins of services alone.
-/

namespace ServoBus

namespace PinTable

/-- These pins are there, and each of them has zero. -/
def Blank (t : PinTable) (refs : List PinRef) : Prop :=
  ∀ ref ∈ refs, ref.index < t.size ∧ t.raw ref = 0

variable {t t' : PinTable} {refs added : List PinRef}

theorem Blank.mono (h : t.Blank refs) (hp : t.Adds t' added) : t'.Blank refs := by
  intro ref href
  obtain ⟨hlt, hraw⟩ := h ref href
  exact ⟨Nat.lt_of_lt_of_le hlt hp.size_le, (hp.raw_eq hlt).trans hraw⟩

theorem Blank.cons {ref : PinRef} (h : t.Blank refs) (hlt : ref.index < t.size)
    (hraw : t.raw ref = 0) : t.Blank (ref :: refs) := by
  intro ref' href
  rcases List.mem_cons.1 href with rfl | href
  · exact ⟨hlt, hraw⟩
  · exact h ref' href

end PinTable

namespace Axis

variable {μ : Type} {site : Site} {w w' : Workspace μ}

namespace Channel

/-- The references to the pins of mapped output objects. -/
def outputRefs (c : Channel) : List PinRef := c.outputs.map (·.2.pin)

variable {label : String} {packed : FeatureSet}

theorem blank_of_result_addObjectPins {xs : List Registered} {x : Exchange}
    (h : (addObjectPins site label packed xs).result w = (.ok x, w')) :
    w'.pins.Blank (x.outputs.map (·.2.pin)) := by
  induction xs generalizing w w' x with
  | nil =>
    cases h
    intro ref href
    cases href
  | cons r rest ih =>
    rw [addObjectPins] at h
    split at h
    · simp only [Action.result_bind_eq_ok_iff, Action.result_pure_eq_ok_iff] at h
      obtain ⟨y, w₁, hy, rfl, rfl⟩ := h
      have hblank := ih hy
      exact hblank
    · simp only [Action.result_bind_eq_ok_iff] at h
      obtain ⟨pin, w₁, hpin, y, w₂, hy, hx⟩ := h
      have hadds := adds_of_result_addObjectPins hy
      have hlt := ((Setup.adds_of_result_addPin hpin).bounds pin (List.mem_singleton_self pin)).2
      have hraw : w₁.pins.raw pin = 0 := by
        rw [PinTable.raw_of_pin? (Setup.pin?_of_result_addPin hpin), Format.pinKind]
        cases r.object.format.signed <;> rfl
      have hblank := ih hy
      split at hx
      · cases hx
        exact hblank
      · cases hx
        refine hblank.cons (Nat.lt_of_lt_of_le hlt hadds.size_le) ?_
        rw [hadds.raw_eq hlt, hraw]

variable [Master μ]

/-- The services that come behind the output objects leave their pins alone. -/
theorem blank_of_result_register {n : Nat} {o : ChannelOptions} {c : Channel}
    (h : (register site n o).result w = (.ok c, w')) : w'.pins.Blank c.outputRefs := by
  obtain ⟨_, _, _, _, -, _, _, -, _, _, -, _, _, -, _, _, -, _, -, _, -, x, _, hx, services, hserv,
    rfl⟩ := exists_of_result_register h
  exact (blank_of_result_addObjectPins hx).mono (adds_of_result_addServices hserv)

end Channel

variable [Master μ]

theorem blank_of_result_registerAll {xs : List (ChannelOptions × Nat)} {cs : List Channel}
    (h : Action.result (xs.mapM fun (o, n) => Channel.register site n o) w = (.ok cs, w')) :
    ∀ c ∈ cs, w'.pins.Blank c.outputRefs := by
  induction xs generalizing w cs with
  | nil =>
    rw [Action.result_mapM_nil] at h
    cases h
    exact fun c hc => (List.not_mem_nil hc).elim
  | cons x xs ih =>
    obtain ⟨c, w₁, cs, hc, hcs, rfl⟩ := Action.result_mapM_cons_eq_ok_iff.1 h
    have hadds := Setup.adds_of_result_mapM (fun _ _ _ _ => Channel.adds_of_result_register) hcs
    rw [List.forall_mem_cons]
    exact ⟨(Channel.blank_of_result_register hc).mono hadds, ih hcs⟩

theorem blank_of_result_configure {o : Options} {cs : List Channel}
    (h : (configure site o).result w = (.ok cs, w')) : ∀ c ∈ cs, w'.pins.Blank c.outputRefs := by
  obtain ⟨b, -, hcs⟩ := exists_of_result_configure h
  exact blank_of_result_registerAll hcs

end Axis

section SetUp

variable {μ : Type} [Master μ] {site : Site} {settings : List Param.Setting} {t : DeviceType}
  {rig : Rig} {w w' : Workspace μ}

theorem DeviceType.blank_of_result_setUp (h : (t.setUp site settings).result w = (.ok rig, w')) :
    ∀ c ∈ rig.channels, w'.pins.Blank c.outputRefs := by
  obtain ⟨o, w₁, w₂, added, hcs, hadds⟩ := DeviceType.exists_configure_of_result_setUp h
  exact fun c hc => (Axis.blank_of_result_configure hcs c hc).mono hadds

/-- After an activation the pins of all mapped output objects have zero. -/
theorem Slave.blank_of_activate {s s' : Slave} {m : μ} {rig : Rig}
    (hs : (s.activate m).value.2.1 = s') (hrig : s'.rig? = some rig) :
    ∀ c ∈ rig.channels, s'.pins.Blank c.outputRefs := by
  subst hs
  rw [value_activate] at hrig ⊢
  split at hrig
  · next rig' w hset =>
    cases hrig
    obtain ⟨w₁, managers, w₂, htype, hconf, hloc⟩ := exists_of_result_setUp hset
    have hadds := Setup.adds_of_made_eq ((Setup.keeps_onMaster _).of_result hconf)
    obtain ⟨⟨r, m'⟩, -, rfl⟩ := Action.result_zoom_eq_ok_iff.1 hloc
    exact fun c hc => (DeviceType.blank_of_result_setUp htype c hc).mono hadds
  · cases hrig

end SetUp

end ServoBus
