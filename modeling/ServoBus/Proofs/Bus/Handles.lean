import ServoBus.Proofs.Bus.Run
import ServoBus.Proofs.Slave.Handles

/-!
# References over runs of a bus

Every configuration throws away what the slaves have registered and added, and makes it anew,
successful or not. A slave that is active afterwards has all of it from this configuration, and
until the next one no operation changes what its references are about. So in every state of a
run the references of active slaves denote what they were made for, at the offsets that the
master answered in the latest configuration.
-/

namespace ServoBus.Bus

variable {μ : Type}

theorem exists_hold_of_map_eq {slaves slaves' : List Slave}
    (h : slaves'.map (·.hold) = slaves.map (·.hold)) {n : Nat} {s' : Slave}
    (hs' : slaves'[n]? = some s') : ∃ s, slaves[n]? = some s ∧ s'.hold = s.hold := by
  have hn := congrArg (·[n]?) h
  simp only [List.getElem?_map, hs', Option.map_some] at hn
  obtain ⟨s, hs, heq⟩ := Option.map_eq_some_iff.1 hn.symm
  exact ⟨s, hs, heq.symm⟩

variable [Master μ]

/-- Where the master answers that the entries of the slave with this number are when the bus is
configured. -/
def placeAnswers (b : Bus μ) (n : Nat) : List (Except Fault Offset) :=
  match b.slaves[n]? with
  | some s => s.placeAnswers (activateAll (b.slaves.take n) b.master).value.2
  | none => []

/-- A slave is activated when the slaves before it have been. -/
theorem getElem?_activateAll {slaves : List Slave} {m : μ} {n : Nat} {s' : Slave}
    (h : (activateAll slaves m).value.1[n]? = some s') :
    ∃ s, slaves[n]? = some s ∧
      (s.activate (activateAll (slaves.take n) m).value.2).value.2.1 = s' := by
  induction slaves generalizing m n with
  | nil => cases h
  | cons s rest ih =>
    simp only [activateAll, Logged.value_bind, Logged.value_pure] at h
    cases n with
    | zero => exact ⟨s, rfl, Option.some_inj.1 h⟩
    | succ n =>
      obtain ⟨t, ht, hact⟩ := ih h
      refine ⟨t, ht, ?_⟩
      simp only [List.take_succ_cons, activateAll, Logged.value_bind, Logged.value_pure]
      exact hact

/-- After a configuration the entries of an active slave are where the master answered. -/
theorem of_configured {b : Bus μ} {n : Nat} {s : Slave} {rig : Rig}
    (hs : b.configured.slaves[n]? = some s) (hrig : s.rig? = some rig) :
    rig.Held s.site s.type s.regs s.pins ∧ s.PlacedBy (b.placeAnswers n) := by
  obtain ⟨t, ht, hact⟩ := getElem?_activateAll hs
  rw [placeAnswers, ht]
  exact Slave.of_activate hact hrig

namespace Session

variable {registry : Registry}

theorem bus_perform_configure (st : Session μ) :
    (st.perform registry .configure).bus = st.bus.configured := by
  rw [perform, result_configure]

/-- Apart from configurations no operation changes what an active slave holds. -/
theorem exists_hold_of_perform {st : Session μ} {op : Operation μ} (hop : op ≠ .configure)
    {n : Nat} {s' : Slave} (hs' : (st.perform registry op).bus.slaves[n]? = some s')
    (hactive : s'.isActive = true) : ∃ s, st.bus.slaves[n]? = some s ∧ s'.hold = s.hold := by
  cases op with
  | addSlave c =>
    rw [perform] at hs'
    rcases state_addSlave registry c st.bus with hb | ⟨s, t, -, hs, hb⟩
    · rw [hb] at hs'
      exact ⟨s', hs', rfl⟩
    · simp only [hb] at hs'
      rw [List.getElem?_append] at hs'
      split at hs'
      · exact ⟨s', hs', rfl⟩
      · have hmem := List.mem_of_getElem? hs'
        rw [List.mem_singleton] at hmem
        rw [Slave.isActive, hmem, (Slave.of_outcome_create hs).1] at hactive
        cases hactive
  | configure => exact absurd rfl hop
  | read => exact exists_hold_of_map_eq (map_readAll Slave.hold_cycle_read _ _) hs'
  | write => exact exists_hold_of_map_eq (map_writeAll Slave.hold_write _ _) hs'
  | setPin name v => exact exists_hold_of_map_eq (map_putNamed fun s _ => s.hold_of_pins) hs'
  | setSlavePin slave name v =>
    exact exists_hold_of_map_eq (map_putNamed fun s _ => s.hold_of_pins) hs'
  | alter m => exact ⟨s', hs', rfl⟩

/-- In a run an active slave holds what it got in the latest configuration. -/
theorem exists_hold_of_run {name : String} {m : μ} {ops : List (Operation μ)} {n : Nat}
    {s : Slave} (hs : ((start name m).run registry ops).bus.slaves[n]? = some s)
    (hactive : s.isActive = true) :
    ∃ before, Latest .configure ops before ∧ ∃ t : Slave,
      ((start name m).run registry before).bus.configured.slaves[n]? = some t ∧
        s.hold = t.hold := by
  induction ops using List.reverseRecOn generalizing s with
  | nil => cases hs
  | append_singleton ops op ih =>
    rw [run_append_singleton] at hs
    by_cases hop : op = .configure
    · subst hop
      rw [bus_perform_configure] at hs
      exact ⟨ops, latest_append_self_iff.2 rfl, s, hs, rfl⟩
    · obtain ⟨s₀, hs₀, hhold⟩ := exists_hold_of_perform hop hs hactive
      rw [Slave.isActive_of_hold_eq hhold] at hactive
      obtain ⟨before, hlast, t, ht, heq⟩ := ih hs₀ hactive
      exact ⟨before, (latest_append_iff hop).2 hlast, t, ht, hhold.trans heq⟩

end Session

/-- In every state of a run all references of an active slave are in range and denote what they
were made for, and its entries are where the master answered in the latest configuration. -/
theorem holds_of_run (registry : Registry) (name : String) (m : μ) (ops : List (Operation μ))
    {n : Nat} {s : Slave} {rig : Rig}
    (hs : ((Session.start name m).run registry ops).bus.slaves[n]? = some s)
    (hrig : s.rig? = some rig) :
    ∃ before, Latest .configure ops before ∧
      s.Holds (((Session.start name m).run registry before).bus.placeAnswers n) rig := by
  have hvalid := (Session.valid_start registry name m).run ops
  have hwired := (hvalid.sound s (List.mem_of_getElem? hs) rig hrig).1
  have hactive : s.isActive = true := by rw [Slave.isActive, hrig]; rfl
  obtain ⟨before, hlast, t, ht, hhold⟩ := Session.exists_hold_of_run hs hactive
  obtain ⟨hheld, hplaced⟩ := Slave.held_of_hold_eq hhold (fun _ => of_configured ht) hrig
  exact ⟨before, hlast, hplaced.holds hwired hheld⟩

/-- A stepper drive on the bench is configured and takes part in a cycle, and with a second one
it is configured once more. -/
def twiceOperations : List (Operation Bench) :=
  [.addSlave { name := "a", position := 0, typeName := "EM3E-556E" }, .configure, .read, .write,
    .addSlave { name := "b", position := 1, typeName := "EM3E-556E" }, .configure, .write]

/-- What the bench and bundled devices come to by these operations. -/
def benchRun (ops : List (Operation Bench)) : Session Bench :=
  (Session.start "m0" ⟨[]⟩).run Registry.bundled ops

theorem holds_benchRun : ∃ s rig before,
    (benchRun twiceOperations).bus.slaves[0]? = some s ∧ s.rig? = some rig ∧
      Latest .configure twiceOperations before ∧
        s.Holds ((benchRun before).bus.placeAnswers 0) rig := by
  have hactive : ((benchRun twiceOperations).bus.slaves[0]?.bind (·.rig?)).isSome = true := by
    decide +kernel
  obtain ⟨rig, h⟩ := Option.isSome_iff_exists.1 hactive
  obtain ⟨s, hs, hrig⟩ := Option.bind_eq_some_iff.1 h
  obtain ⟨before, hlast, hholds⟩ :=
    holds_of_run Registry.bundled "m0" (⟨[]⟩ : Bench) twiceOperations hs hrig
  exact ⟨s, rig, before, hs, hrig, hlast, hholds⟩

end ServoBus.Bus
