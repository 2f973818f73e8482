import ServoBus.Proofs.Device.Idle
import ServoBus.Proofs.Registration.Overlap
import ServoBus.Slave

/-!
# Slaves that are active

An active slave has a wired rig, and the master has placed each of its entries. This is so
after the slave was activated, and nothing but the next activation can change it: `frame`
is what it depends on, and in a cycle the frame of a slave stays the same.
-/

namespace ServoBus.Slave

/-- What an activation decides about a slave: all but its state, the values of its pins and
what its writers are about. -/
structure Frame where
  site : Site
  type : DeviceType
  regs : Registrations
  shapes : List Pin.Shape
  rig? : Option Rig

def frame (s : Slave) : Frame := ⟨s.site, s.type, s.regs, s.pins.shapes, s.rig?.map (·.idle)⟩

theorem isActive_eq (s : Slave) : s.isActive = s.frame.rig?.isSome := by
  rw [isActive, frame, Option.isSome_map]

/-- A new slave has settings that its type accepts, and nothing was made for it. -/
theorem exists_of_outcome_create {master : String} {c : SlaveConfig} {t : DeviceType} {s : Slave}
    (h : (create master c t).outcome = .ok s) :
    ∃ site settings,
      (Param.Setting.readAll (Site.device site) t.declarations c.settings).outcome = .ok settings ∧
      s = ⟨site, t, settings, ⟨site.device, [], false⟩, ⟨site.device, t.entryLimit, []⟩, {}, none,
        .unknown⟩ := by
  let site : Site :=
    ⟨master, c.name, c.position, c.vendor?.getD t.vendor, c.product?.getD t.product⟩
  unfold create at h
  rw [Checked.outcome_bind] at h
  cases hread : (Param.Setting.readAll site.device t.declarations c.settings).outcome with
  | error e =>
    rw [hread] at h
    cases h
  | ok settings =>
    rw [hread] at h
    cases h
    exact ⟨site, settings, hread, rfl⟩

/-- A new slave is inactive, and its state is unknown. -/
theorem of_outcome_create {master : String} {c : SlaveConfig} {t : DeviceType} {s : Slave}
    (h : (create master c t).outcome = .ok s) :
    s.rig? = none ∧ s.type = t ∧ s.state = .unknown := by
  obtain ⟨site, settings, -, rfl⟩ := exists_of_outcome_create h
  exact ⟨rfl, rfl, rfl⟩

variable {μ : Type} [Master μ]

/-- If the slave is active, its rig is wired and all its entries are placed. -/
def Sound (μ : Type) [Master μ] (s : Slave) : Prop :=
  ∀ rig, s.rig? = some rig →
    rig.Wired s.site s.type s.regs s.pins ∧ Registrations.Placed μ s.regs.entries

theorem Sound.of_frame_eq {s s' : Slave} (h : s.Sound μ) (hf : s'.frame = s.frame) :
    s'.Sound μ := by
  intro rig' hrig'
  simp only [frame, Frame.mk.injEq] at hf
  obtain ⟨hsite, htype, hregs, hshapes, hrig⟩ := hf
  rw [hrig', Option.map_some, eq_comm, Option.map_eq_some_iff] at hrig
  obtain ⟨rig, hr, heq⟩ := hrig
  obtain ⟨hwired, hplaced⟩ := h rig hr
  rw [hsite, htype, hregs]
  exact ⟨hwired.of_eq heq.symm rfl hshapes, hplaced⟩

/-- The steps of a setup that succeeded, as far as they change something: behind the setup by the
type of the slave the master configures it and places its entries. -/
theorem exists_of_result_setUp {s : Slave} {rig : Rig} {w w' : Workspace μ}
    (h : s.setUp.result w = (.ok rig, w')) :
    ∃ w₁ managers w₂, (s.type.setUp s.site s.settings).result w = (.ok rig, w₁) ∧
      (Setup.onMaster (Master.configureSlave s.site.position s.site.identity managers)).result
          w₁ = (.ok (), w₂) ∧
        Setup.locate.result w₂ = (.ok (), w') := by
  simp only [setUp, prepare, bind_assoc, pure_bind, Action.result_bind_eq_ok_iff,
    Action.result_pure_eq_ok_iff] at h
  obtain ⟨rig', w₁, hset, w₂, w₃, hget, managers, w₄, hfinish, _, w₅, hlog, _, w₆, hconf, _, w₇,
    hloc, rfl, rfl⟩ := h
  cases hget
  cases hlog
  obtain ⟨-, rfl⟩ := Action.result_ofChecked_eq_ok_iff.1 hfinish
  exact ⟨_, managers, w₆, hset, hconf, hloc⟩

/-- A slave that was set up has a wired rig, and its entries were placed. -/
theorem of_result_setUp {s : Slave} {rig : Rig} {w w' : Workspace μ}
    (hregs : w.regs.entries = []) (hpins : w.pins.names.Nodup)
    (h : s.setUp.result w = (.ok rig, w')) :
    rig.Wired s.site s.type w'.regs w'.pins ∧ Registrations.Placed μ w'.regs.entries := by
  obtain ⟨w₁, managers, w₂, hset, hconf, hloc⟩ := exists_of_result_setUp h
  have hwired := DeviceType.wired_of_result_setUp hregs hpins hset
  have hmade := (Setup.keeps_onMaster _).of_result hconf
  simp only [Action.Same, Setup.made, Prod.mk.injEq] at hmade
  obtain ⟨⟨r, m⟩, hlocate, rfl⟩ := Action.result_zoom_eq_ok_iff.1 hloc
  obtain ⟨hwanted, hplaced, -⟩ := Registrations.of_result_locate hlocate
  refine ⟨hwired.of_eq rfl ?_ ?_, hplaced⟩
  · rw [← hmade.2.1]
    exact hwanted
  · exact congrArg PinTable.shapes hmade.2.2

theorem sound_activate (s : Slave) (m : μ) : (s.activate m).value.2.1.Sound μ := by
  rw [value_activate]
  split
  · next rig w hset =>
    intro rig' hrig
    cases hrig
    refine of_result_setUp ?_ ?_ hset
    · rfl
    · exact List.nodup_nil
  · intro rig hrig
    cases hrig

/-- What an attempt to activate a slave leaves of it for sure. -/
theorem identity_activate (s : Slave) (m : μ) :
    (s.activate m).value.2.1.site = s.site ∧ (s.activate m).value.2.1.type = s.type := by
  rw [value_activate]
  split
  · exact ⟨rfl, rfl⟩
  · exact ⟨rfl, rfl⟩

section Cycle

theorem frame_updateState (s : Slave) (m : μ) : (s.updateState m).1.frame = s.frame := by
  unfold updateState
  split <;> rfl

theorem frame_of_pins (s : Slave) {pins : PinTable} (h : pins.shapes = s.pins.shapes) :
    ({ s with pins } : Slave).frame = s.frame := by
  simp only [frame, h]

theorem frame_read (s : Slave) (image : Bytes) : (s.read image).frame = s.frame := by
  unfold read
  split
  · next rig _ => exact s.frame_of_pins (rig.shapes_read _ _ _)
  · rfl

theorem frame_write (s : Slave) (m : μ) : (s.write m).value.1.frame = s.frame := by
  unfold write cyclic?
  cases s.state.operational with
  | false => rfl
  | true =>
    cases hrig : s.rig? with
    | none => rfl
    | some rig =>
      simp only [↓reduceIte, Logged.value_bind, Logged.value_pure, frame, hrig, Option.map_some,
        Rig.idle_write]

end Cycle

end ServoBus.Slave
