import ServoBus.Proofs.Slave.Careful
import ServoBus.Proofs.Station

/-!
# An activation forgets what was before

What an activation comes to depends on the slave as it was created and on the answers of the
master. Two stations of one configuration may have been through anything, successful and failed
activations among it: if the master gives the same answers, their next activation makes the
same calls, and afterwards nobody can tell which station is which.
-/

namespace ServoBus

variable {μ ν : Type} [Master μ] [Master ν]

/-- An activation starts from the root of a slave. -/
theorem Slave.activate_of_root_eq {s s' : Slave} (h : s'.root = s.root) (m : μ) :
    (s'.activate m).value =
      ((s.activate m).value.1, { (s.activate m).value.2.1 with state := s'.state },
        (s.activate m).value.2.2) := by
  obtain ⟨site, type, settings, syncs, regs, pins, rig?, state⟩ := s
  obtain ⟨site', type', settings', syncs', regs', pins', rig?', state'⟩ := s'
  simp only [root, cleared, Slave.mk.injEq, and_true] at h
  obtain ⟨rfl, rfl, rfl, hsyncs, hregs⟩ := h
  have hsetUp :
      (setUp ⟨site', type', settings', syncs', regs', pins', rig?', state'⟩ : Setup μ Rig) =
        setUp ⟨site', type', settings', syncs, regs, pins, rig?, state⟩ := rfl
  rw [value_activate, value_activate, hsetUp]
  dsimp only
  rw [hsyncs, hregs]
  generalize Action.result _ _ = y
  rcases y with ⟨e | rig, w⟩
  · simp only [cleared, hsyncs, hregs]
  · rfl

theorem Slave.calls_of_root_eq {s s' : Slave} (h : s'.root = s.root) (m : μ) :
    s'.calls m = s.calls m := by
  rw [calls, calls, activate_of_root_eq h]

namespace Station

/-- The calls of an activation, the earliest first. -/
def calls (s : Station) (m : μ) : List MasterCall :=
  (s.activate (⟨m, []⟩ : Traced μ)).value.2.2.calls.reverse

theorem calls_slave {s : Station} (hs : s.Fits) (m : μ) : s.slave.calls m = s.calls m := by
  rw [Slave.calls, (slave_activate hs _).1, calls]

/-- Nobody can tell an activation of one station from one of another. -/
structure Same (s : Station) (m : μ) (s' : Station) (m' : ν) : Prop where
  calls : s'.calls m' = s.calls m
  result : (s'.activate m').value.1 = (s.activate m).value.1
  syncs : (s'.activate m').value.2.1.syncs = (s.activate m).value.2.1.syncs
  regs : (s'.activate m').value.2.1.regs = (s.activate m).value.2.1.regs
  pins : (s'.activate m').value.2.1.pins = (s.activate m).value.2.1.pins
  driver : (s.activate m).value.1 = .ok () →
    (s'.activate m').value.2.1.driver = (s.activate m).value.2.1.driver
  /-- What happens later on to stations of which the same state is known. -/
  future : ∀ (state : SlaveState) {κ : Type} [Master κ] (k : κ) (events : List (Slave.Event κ)),
    (({ (s'.activate m').value.2.1 with state } : Station).after k events).1.slave =
        (({ (s.activate m).value.2.1 with state } : Station).after k events).1.slave ∧
      (({ (s'.activate m').value.2.1 with state } : Station).after k events).2 =
        (({ (s.activate m).value.2.1 with state } : Station).after k events).2

theorem same_of_slave_eq {s s' : Station} {m : μ} {m' : ν} (hs : s.Fits) (hs' : s'.Fits)
    (hcalls : s'.slave.calls m' = s.slave.calls m)
    (hresult : (s'.slave.activate m').value.1 = (s.slave.activate m).value.1)
    (hslave : (s'.slave.activate m').value.2.1 =
      { (s.slave.activate m).value.2.1 with state := s'.state }) : s.Same m s' m' := by
  obtain ⟨hvalue, hfits⟩ := slave_activate hs m
  obtain ⟨hvalue', hfits'⟩ := slave_activate hs' m'
  rw [hvalue, hvalue'] at hresult hslave
  rw [calls_slave hs, calls_slave hs'] at hcalls
  obtain ⟨-, -, -, hsyncs, hregs, hpins, hrig, -⟩ := Slave.mk.inj hslave
  constructor
  case calls => exact hcalls
  case result => exact hresult
  case syncs => exact hsyncs
  case regs => exact hregs
  case pins => exact hpins
  case driver =>
    intro hok
    exact (rig?_slave_eq_some_iff.1
      (hrig.trans (rig?_slave_eq_some_iff.2 ⟨active_of_activate hok, rfl⟩))).2
  case future =>
    intro state κ _ k events
    have hstart : ({ (s'.activate m').value.2.1 with state } : Station).slave =
        ({ (s.activate m).value.2.1 with state } : Station).slave :=
      congrArg (fun s : Slave => { s with state }) hslave
    have hx := slave_after (s := { (s.activate m).value.2.1 with state }) hfits k events
    have hy := slave_after (s := { (s'.activate m').value.2.1 with state }) hfits' k events
    rw [hstart, hx.1] at hy
    exact ⟨(congrArg Prod.fst hy.1).symm, (congrArg Prod.snd hy.1).symm⟩

/-- If the master gives the same answers, an activation does not depend on what was before. -/
theorem forgets {master : String} {c : SlaveConfig} {t : DeviceType} {s : Station}
    (hs : (create master c t).outcome = .ok s) (m₀ : μ) (past : List (Slave.Event μ)) (n₀ : ν)
    (past' : List (Slave.Event ν)) {m : μ} {n : ν}
    (h : Master.answers ((s.after m₀ past).1.calls m) n =
      Master.answers ((s.after m₀ past).1.calls m) m) :
    (s.after m₀ past).1.Same m (s.after n₀ past').1 n := by
  obtain ⟨-, hfits⟩ := of_outcome_create hs
  obtain ⟨hafter, hfits₁⟩ := slave_after hfits m₀ past
  obtain ⟨hafter', hfits₂⟩ := slave_after hfits n₀ past'
  have hroot₁ := s.slave.root_after m₀ past
  have hroot₂ := s.slave.root_after n₀ past'
  rw [hafter] at hroot₁
  rw [hafter'] at hroot₂
  have hroot : (s.after n₀ past').1.slave.root = (s.after m₀ past).1.slave.root :=
    hroot₂.trans hroot₁.symm
  rw [← calls_slave hfits₁, ← Master.alike_sharp_iff] at h
  obtain ⟨hcalls, hresult, hslave, -⟩ := Slave.activate_of_alike h (.inl rfl)
  rw [Slave.seen_sharp, Slave.seen_sharp] at hslave
  have hactivate := Slave.activate_of_root_eq hroot n
  apply same_of_slave_eq hfits₁ hfits₂
  · rw [Slave.calls_of_root_eq hroot, hcalls]
  · rw [hactivate, hresult]
  · rw [hactivate, hslave]
    rfl

/-- A past with an activation that failed, one that succeeded, and a host that lost all pins. -/
def eventful : List (Slave.Event Rack) :=
  [.activate, .alter { broken := [] }, .activate, .updateState, .read, .change fun _ => {}, .write]

/-- A drive with such a past is activated like a new one. -/
theorem forgets_eventful : ∃ t s, Registry.bundled.find Slave.firstDrive.typeName = .ok t ∧
    (create "m0" Slave.firstDrive t).outcome = .ok s ∧
    ((s.after ({ broken := [0] } : Rack) eventful).1.pins = {} ∧
      (s.after ({ broken := [0] } : Rack) eventful).1.driver ≠ s.driver) ∧
    (s.activate ({ broken := [] } : Rack)).value.1 = .ok () ∧
    s.Same ({ broken := [] } : Rack) (s.after ({ broken := [0] } : Rack) eventful).1
      ({ broken := [7] } : Rack) := by
  have hrun : ((Registry.bundled.find Slave.firstDrive.typeName).toOption.bind fun t =>
      (create "m0" Slave.firstDrive t).outcome.toOption.map fun s =>
        let s' := (s.after ({ broken := [0] } : Rack) eventful).1
        let calls := s.calls ({ broken := [] } : Rack)
        (decide (s'.pins = {} ∧ s'.driver ≠ s.driver),
          decide ((s.activate ({ broken := [] } : Rack)).value.1 = .ok ()),
          decide (Master.answers calls ({ broken := [7] } : Rack) =
            Master.answers calls ({ broken := [] } : Rack)))) = some (true, true, true) := by
    decide +kernel
  obtain ⟨t, ht, hmap⟩ := Option.bind_eq_some_iff.1 hrun
  obtain ⟨s, hs, hend⟩ := Option.map_eq_some_iff.1 hmap
  simp only [Prod.mk.injEq, decide_eq_true_eq] at hend
  replace hs := Action.eq_ok_of_toOption hs
  exact ⟨t, s, Action.eq_ok_of_toOption ht, hs, hend.1, hend.2.1,
    forgets hs ({ broken := [] } : Rack) [] ({ broken := [0] } : Rack) eventful hend.2.2⟩

end Station

end ServoBus
