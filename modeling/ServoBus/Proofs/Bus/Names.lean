import ServoBus.Proofs.Bus.Lookup
import ServoBus.Proofs.Bus.Run
import ServoBus.Proofs.Device.Qualified
import ServoBus.Proofs.Slave.Surface

/-!
# Names of pins on a bus

In every state of a run the pins of a slave have names that differ, and that begin with the names of
the bus and of the slave. So a name leads to another pin than its own only if the bus was given two
slaves of one name.
-/

namespace ServoBus

/-- The names of all pins of a slave differ, and begin with the names of the master and of the
slave. -/
structure Slave.Labelled (master : String) (s : Slave) : Prop where
  master : s.site.master = master
  qualified : ∀ name ∈ s.pins.names, s.site.Qualifies name
  nodup : s.pins.names.Nodup

namespace Slave

theorem Labelled.of_frame_eq {master : String} {s s' : Slave} (h : s.Labelled master)
    (hf : s'.frame = s.frame) : s'.Labelled master := by
  simp only [frame, Frame.mk.injEq] at hf
  obtain ⟨hsite, -, -, hshapes, -⟩ := hf
  have hnames : s'.pins.names = s.pins.names := by rw [PinTable.names, hshapes, PinTable.names]
  constructor
  · rw [hsite, h.master]
  · rw [hsite, hnames]
    exact h.qualified
  · rw [hnames]
    exact h.nodup

theorem labelled_of_pins_eq {master : String} {s : Slave} (hmaster : s.site.master = master)
    (h : s.pins = {}) : s.Labelled master := by
  refine ⟨hmaster, fun name hname => ?_, ?_⟩
  · rw [h] at hname
    cases hname
  · rw [h]
    exact List.nodup_nil

theorem labelled_create {master : String} {c : SlaveConfig} {t : DeviceType} {s : Slave}
    (h : (create master c t).outcome = .ok s) : s.Labelled master := by
  unfold create at h
  obtain ⟨settings, -, hs⟩ := Checked.outcome_bind_eq_ok_iff.1 h
  cases hs
  exact labelled_of_pins_eq rfl rfl

variable {μ : Type} [Master μ]

/-- Whatever pins a slave had before, an activation gives it pins of its own. -/
theorem labelled_activate (s : Slave) (m : μ) :
    (s.activate m).value.2.1.Labelled s.site.master := by
  rcases h : (s.activate m).value with ⟨e | _, s', m'⟩
  · rw [value_activate] at h
    split at h
    · cases h
    · cases h
      exact labelled_of_pins_eq rfl rfl
  · obtain ⟨rig, o, w, -, -, -, hshapes, hnodup⟩ := exists_rig_of_activate h
    have hsite := (s.identity_activate m).1
    rw [h] at hsite
    refine ⟨congrArg Site.master hsite, fun name hname => ?_, hnodup⟩
    obtain ⟨p, hp, rfl⟩ := List.mem_map.1 hname
    rw [hshapes] at hp
    rw [hsite]
    exact DeviceType.qualifies_of_mem_surface hp

end Slave

namespace Bus

variable {μ : Type}

/-- A slave of the same name that comes before has a pin of this name. -/
def Shadowed (b : Bus μ) (n : Nat) (ref : PinRef) : Prop :=
  ∃ s ∈ b.slaves[n]?, ∃ p ∈ s.pins.pin? ref, ∃ t ∈ b.slaves.take n,
    t.name = s.name ∧ p.name ∈ t.pins.names

def Labelled (b : Bus μ) : Prop := ∀ s ∈ b.slaves, s.Labelled b.name

variable {b b' : Bus μ}

/-- Between slaves of other names there is nothing to be confused. -/
theorem Labelled.addresses_iff (h : b.Labelled) {n : Nat} {ref : PinRef} :
    b.Addresses n ref ↔ ¬ b.Shadowed n ref := by
  rw [Bus.addresses_iff fun s hs => (h s hs).nodup]
  constructor
  · rintro hfree ⟨s, hs, p, hp, t, ht, -, hown⟩
    exact hfree s hs p hp t ht hown
  · intro hfree s hs p hp t ht hown
    refine hfree ⟨s, hs, p, hp, t, ht, ?_, hown⟩
    have hslave := h s (List.mem_of_getElem? hs)
    have htwin := h t (List.mem_of_mem_take ht)
    exact Site.slave_eq_of_qualifies (htwin.master.trans hslave.master.symm)
      (hslave.qualified _ (PinTable.mem_names_of_pin? hp)) (htwin.qualified _ hown)

/-- All pins of a bus are the ones that their names lead to if all slaves are of different names. -/
theorem Labelled.addresses (h : b.Labelled) (hnames : (b.slaves.map (·.name)).Nodup) (n : Nat)
    (ref : PinRef) : b.Addresses n ref := by
  rw [h.addresses_iff]
  rintro ⟨s, hs, p, -, t, ht, hname, -⟩
  exact ne_of_mem_take hnames hs ht hname

theorem Labelled.of_frames_eq (h : b.Labelled) (hname : b'.name = b.name)
    (hf : b'.frames = b.frames) : b'.Labelled := by
  intro s' hs'
  obtain ⟨s, hs, heq⟩ := exists_of_frames_eq hf hs'
  rw [hname]
  exact (h s hs).of_frame_eq heq

/-- Setting a pin does not touch names. -/
theorem Labelled.putNamed (h : b.Labelled) (p : Slave → Bool) (missing : Fault) (name : String)
    (v : Pin.Value) :
    (((fun slaves => { b with slaves }) <$>
      changePins p missing (·.putNamed name v) b.slaves).toOption.getD b).Labelled := by
  refine h.of_frames_eq ?_ (map_putNamed fun s _ => s.frame_of_pins)
  cases changePins p missing (·.putNamed name v) b.slaves <;> rfl

variable [Master μ]

theorem labelled_activateAll {master : String} {slaves : List Slave} {m : μ}
    (h : ∀ s ∈ slaves, s.site.master = master) :
    ∀ s ∈ (activateAll slaves m).value.1, s.Labelled master := by
  induction slaves generalizing m with
  | nil => exact List.forall_mem_nil _
  | cons s rest ih =>
    simp only [activateAll, Logged.value_bind, Logged.value_pure]
    rw [List.forall_mem_cons] at h ⊢
    refine ⟨?_, ih h.2⟩
    rw [← h.1]
    exact s.labelled_activate m

namespace Session

variable {registry : Registry} {st : Session μ}

theorem labelled_perform (h : st.bus.Labelled) (op : Operation μ) :
    (st.perform registry op).bus.Labelled := by
  cases op with
  | addSlave c =>
    rcases state_addSlave registry c st.bus with hb | ⟨s, t, -, hs, hb⟩
    · rw [perform, hb]
      exact h
    · rw [perform, hb]
      intro s' hs'
      rcases List.mem_append.1 hs' with hs' | hs'
      · exact h s' hs'
      · rw [List.mem_singleton.1 hs']
        exact Slave.labelled_create hs
  | configure =>
    rw [perform, result_configure]
    exact labelled_activateAll fun s hs => (h s hs).master
  | read => exact h.of_frames_eq rfl (frames_read _)
  | write => exact h.of_frames_eq rfl (frames_write _)
  | setPin name v => exact h.putNamed _ _ name v
  | setSlavePin slave name v => exact h.putNamed _ _ name v
  | alter m => exact h

theorem labelled_run (h : st.bus.Labelled) (ops : List (Operation μ)) :
    (st.run registry ops).bus.Labelled := by
  induction ops generalizing st with
  | nil => exact h
  | cons op ops ih => exact ih (labelled_perform h op)

end Session

/-- In every state of a run a pin is the one that its full name leads to, unless there is a slave of
the same name in front that has a pin of this name. -/
theorem addresses_run_iff (registry : Registry) (name : String) (m : μ)
    (ops : List (Operation μ)) (n : Nat) (ref : PinRef) :
    ((Session.start name m).run registry ops).bus.Addresses n ref ↔
      ¬ ((Session.start name m).run registry ops).bus.Shadowed n ref :=
  (Session.labelled_run (fun _ hs => (List.not_mem_nil hs).elim) ops).addresses_iff

/-- Two drives of one name, both of them active, and the host sets a pin by its name. -/
def twins : Session Rack :=
  (Session.start "m0" ({ broken := [] } : Rack)).run Registry.bundled
    [.addSlave { name := "a", position := 0, typeName := "EM3E-556E" },
      .addSlave { name := "a", position := 1, typeName := "EM3E-556E" },
      .configure, .setPin "m0.a.srv-cia-controlword" (.u32 15)]

/-- The pin of the first drive has been set, and the value of this one is found under the name of
the pin of the second drive, too. -/
theorem not_addresses_twins :
    (twins.configured?.any fun r => r.toOption == some 2) = true ∧
      twins.bus.slaves[1]?.bind (·.pins.pin? ⟨0⟩) =
        some ⟨"m0.a.srv-cia-controlword", .input, .u32 0⟩ ∧
      twins.bus.pin? "m0.a.srv-cia-controlword" = some (.u32 15) ∧
      ¬ twins.bus.Addresses 1 ⟨0⟩ := by
  have hpin : twins.bus.slaves[1]?.bind (·.pins.pin? ⟨0⟩) =
      some ⟨"m0.a.srv-cia-controlword", .input, .u32 0⟩ := by decide +kernel
  have hfound : twins.bus.pin? "m0.a.srv-cia-controlword" = some (.u32 15) := by decide +kernel
  refine ⟨by decide +kernel, hpin, hfound, fun haddr => ?_⟩
  obtain ⟨s, hs, hp⟩ := Option.bind_eq_some_iff.1 hpin
  have hvalue := (haddr s hs _ hp).1
  rw [hfound] at hvalue
  exact absurd hvalue (by decide)

end Bus

end ServoBus
