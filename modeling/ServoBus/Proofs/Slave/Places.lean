import ServoBus.Proofs.Device.Held
import ServoBus.Proofs.Slave

/-!
# Where the entries of a slave are

An activation sets a slave up, has the master configure it, and then asks for the offset of one
entry after the other. If it succeeds, each entry has the offset that was answered for it, and
all references of the rig are to what was registered and added in this activation. Until the
next one this is what the slave holds, and no cycle changes it.
-/

namespace ServoBus

variable {μ : Type}

namespace Registrations

variable [Master μ]

/-- What the master answers when it is asked for the offsets of entries. The first refusal is
the last answer. -/
def answers : List Registration → μ → List (Except Fault Offset)
  | [], _ => []
  | r :: rs, m =>
    match Master.locateEntry r.slave r.address m with
    | (.error e, _) => [.error e]
    | (.ok o, m) => .ok o :: answers rs m

/-- Without a refusal each entry is where the answer to it says. -/
theorem getElem?_locateFrom {device : String} {rs : List Registration} {m : μ}
    (h : (locateFrom device rs m).value.2.1 = .ok ()) {k : Nat} {e : Registration}
    (he : (locateFrom device rs m).value.1[k]? = some e) :
    ∃ o, e.offset? = some o ∧ (answers rs m)[k]? = some (.ok o) := by
  induction rs generalizing m k with
  | nil => cases he
  | cons r rs ih =>
    rw [locateFrom] at h he
    rw [answers]
    rcases hl : Master.locateEntry r.slave r.address m with ⟨e' | o, m'⟩
    · rw [hl] at h
      cases h
    · rw [hl] at h he
      simp only [Logged.value_bind, Logged.value_pure] at h he
      cases k with
      | zero =>
        cases he
        exact ⟨o, rfl, rfl⟩
      | succ k => exact ih h he

theorem answers_of_result_locate {r r' : Registrations} {m m' : μ}
    (h : locate.result (r, m) = (.ok (), (r', m'))) {k : Nat} {e : Registration}
    (he : r'.entries[k]? = some e) :
    ∃ o, e.offset? = some o ∧ (answers r.entries m)[k]? = some (.ok o) := by
  have hfrom := @getElem?_locateFrom μ _ r.device r.entries m
  rw [locate] at h
  simp only [Action.result_bind, Action.result_get, Action.result_lift, Action.result_set] at h
  generalize (locateFrom r.device r.entries m).value = found at h hfrom
  rcases found with ⟨rs, e' | ⟨⟩, m₁⟩
  · cases h
  · rw [Action.result_ofChecked, Prod.mk.injEq] at h
    obtain ⟨-, hstate⟩ := h
    cases hstate
    exact hfrom rfl he

end Registrations

namespace Slave

/-- What stays of an active slave until it is activated again: its frame, and the pins that its
services take their values from. -/
def hold (s : Slave) : Frame × Option (List (List PinRef)) := (s.frame, s.rig?.map (·.servicePins))

theorem isActive_of_hold_eq {s s' : Slave} (h : s'.hold = s.hold) : s'.isActive = s.isActive := by
  rw [isActive_eq, isActive_eq, show s'.frame = s.frame from congrArg Prod.fst h]

theorem hold_of_pins (s : Slave) {pins : PinTable} (h : pins.shapes = s.pins.shapes) :
    ({ s with pins } : Slave).hold = s.hold :=
  Prod.ext (s.frame_of_pins h) rfl

/-- Every entry has the offset that was answered for it. -/
def PlacedBy (s : Slave) (answers : List (Except Fault Offset)) : Prop :=
  ∀ (k : Nat) e, s.regs.entries[k]? = some e →
    ∃ o, e.offset? = some o ∧ answers[k]? = some (.ok o)

/-- What holds of the rig of one slave holds of that of another that has the same. -/
theorem held_of_hold_eq {s t : Slave} {answers : List (Except Fault Offset)} (h : s.hold = t.hold)
    (ht : ∀ rig, t.rig? = some rig →
      rig.Held t.site t.type t.regs t.pins ∧ t.PlacedBy answers)
    {rig : Rig} (hrig : s.rig? = some rig) :
    rig.Held s.site s.type s.regs s.pins ∧ s.PlacedBy answers := by
  simp only [hold, frame, Prod.mk.injEq, Frame.mk.injEq, hrig, Option.map_some] at h
  obtain ⟨⟨hsite, htype, hregs, hshapes, hidle⟩, hpins⟩ := h
  obtain ⟨rig', hrig', hidle⟩ := Option.map_eq_some_iff.1 hidle.symm
  rw [hrig', Option.map_some, Option.some.injEq] at hpins
  obtain ⟨hheld, hplaced⟩ := ht rig' hrig'
  rw [PlacedBy, hsite, htype, hregs]
  exact ⟨hheld.of_eq hidle.symm hpins rfl hshapes, hplaced⟩

variable [Master μ]

theorem hold_cycle_read (s : Slave) (m : μ) (image : Bytes) :
    ((s.updateState m).1.read image).hold = s.hold := by
  have hframe : ((s.updateState m).1.read image).frame = s.frame := by
    rw [frame_read, frame_updateState]
  have hrig : ((s.updateState m).1.read image).rig? = s.rig? := by
    unfold read updateState
    split <;> split <;> rfl
  rw [hold, hframe, hrig]
  rfl

theorem hold_write (s : Slave) (m : μ) : (s.write m).value.1.hold = s.hold := by
  refine Prod.ext (s.frame_write m) ?_
  unfold hold write cyclic?
  cases s.state.operational with
  | false => rfl
  | true =>
    cases hrig : s.rig? with
    | none => simp [hrig]
    | some rig =>
      simp only [↓reduceIte, Logged.value_bind, Logged.value_pure, Option.map_some,
        Rig.servicePins_write]

/-- Behind the setup by the type of the slave nothing is registered and no pin is added. -/
theorem exists_of_result_prepare {s : Slave} {rig : Rig} {w w' : Workspace μ}
    (h : s.prepare.result w = (.ok rig, w')) :
    ∃ w₁, (s.type.setUp s.site s.settings).result w = (.ok rig, w₁) ∧ w'.regs = w₁.regs ∧
      w'.pins = w₁.pins := by
  rw [prepare] at h
  simp only [Action.result_bind_eq_ok_iff] at h
  obtain ⟨rig', w₁, hset, w₂, w₃, hget, managers, w₄, hfinish, _, w₅, hlog, _, w₆, hconf, hend⟩ := h
  rw [Action.result_pure_eq_ok_iff] at hend
  obtain ⟨rfl, rfl⟩ := hend
  cases hget
  cases hlog
  obtain ⟨-, rfl⟩ := Action.result_ofChecked_eq_ok_iff.1 hfinish
  have hmade := (Setup.keeps_onMaster _).of_result hconf
  simp only [Action.Same, Setup.made, Prod.mk.injEq] at hmade
  exact ⟨_, hset, hmade.2.1, hmade.2.2⟩

theorem held_of_result_prepare {s : Slave} {rig : Rig} {w w' : Workspace μ}
    (h : s.prepare.result w = (.ok rig, w')) : rig.Held s.site s.type w'.regs w'.pins := by
  obtain ⟨w₁, hset, hregs, hpins⟩ := exists_of_result_prepare h
  rw [hregs, hpins]
  exact DeviceType.held_of_result_setUp hset

/-- What the master answers for the entries of the slave when it activates the slave. -/
def placeAnswers (s : Slave) (m : μ) : List (Except Fault Offset) :=
  match s.prepare.result ⟨m, s.syncs.cleared, s.regs.cleared, {}⟩ with
  | (.ok _, w) => Registrations.answers w.regs.entries w.master
  | (.error _, _) => []

/-- After an activation that succeeded the slave holds what was added in it, and its entries have
the places that were answered. -/
theorem of_activate {s s' : Slave} {m : μ} {rig : Rig} (hs : (s.activate m).value.2.1 = s')
    (hrig : s'.rig? = some rig) :
    rig.Held s'.site s'.type s'.regs s'.pins ∧ s'.PlacedBy (s.placeAnswers m) := by
  subst hs
  rw [value_activate] at hrig ⊢
  split at hrig
  · next rig' w hset =>
    cases hrig
    rw [setUp] at hset
    simp only [Action.result_bind_eq_ok_iff, Action.result_pure_eq_ok_iff] at hset
    obtain ⟨rig', w₁, hprep, _, w₂, hloc, rfl, rfl⟩ := hset
    obtain ⟨⟨r, m'⟩, hlocate, rfl⟩ := Action.result_zoom_eq_ok_iff.1 hloc
    have hheld := held_of_result_prepare hprep
    constructor
    · exact hheld.of_eq rfl rfl (Registrations.of_result_locate hlocate).1 rfl
    · intro k e he
      rw [placeAnswers, hprep]
      exact Registrations.answers_of_result_locate hlocate he
  · cases hrig

end Slave

end ServoBus
