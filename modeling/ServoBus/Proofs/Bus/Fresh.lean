import ServoBus.Proofs.Bus.Run

/-!
# How fresh the states of slaves are

A cycle touches a slave that is active and whose state is operational, and the state is the one
that the master answered to the latest input half of a cycle. No other operation asks for it or
forgets it, and a configuration does not either. So behind a configuration a slave takes part in
an output half if an input half has found it operational since then, but also if there was no
input half and the last one before the configuration had found it operational.
-/

namespace ServoBus

variable {μ : Type}

namespace Slave

variable [Master μ]

theorem state_activate (s : Slave) (m : μ) : (s.activate m).value.2.1.state = s.state := by
  rw [value_activate]
  split <;> rfl

theorem state_read (s : Slave) (image : Bytes) : (s.read image).state = s.state := by
  unfold read
  split <;> rfl

theorem state_write (s : Slave) (m : μ) : (s.write m).value.1.state = s.state := by
  unfold write
  split <;> rfl

/-- A slave that is not operational has no part in the output half of a cycle. -/
theorem write_of_not_operational {s : Slave} (h : s.isOperational = false) (m : μ) :
    s.write m = pure (s, m) := by
  rw [← s.cyclic?_isSome, Option.isSome_eq_false_iff, Option.isNone_iff_eq_none] at h
  rw [write, h]

end Slave

namespace Bus

def states (b : Bus μ) : List SlaveState := b.slaves.map (·.state)

/-- The cached state of the slave with this number is operational. -/
def IsUp (b : Bus μ) (n : Nat) : Prop :=
  ∃ state, b.states[n]? = some state ∧ state.operational = true

theorem isUp_of_states_eq {b b' : Bus μ} (h : b'.states = b.states) (n : Nat) :
    b'.IsUp n ↔ b.IsUp n := by
  rw [IsUp, IsUp, h]

/-- The slave with this number is active. -/
def IsActive (b : Bus μ) (n : Nat) : Prop := ∃ s, b.slaves[n]? = some s ∧ s.isActive = true

/-- The slave with this number takes part in a cycle. -/
def TakesPart (b : Bus μ) (n : Nat) : Prop :=
  ∃ s, b.slaves[n]? = some s ∧ s.isOperational = true

theorem takesPart_iff (b : Bus μ) (n : Nat) : b.TakesPart n ↔ b.IsActive n ∧ b.IsUp n := by
  simp only [TakesPart, IsActive, IsUp, states, List.getElem?_map, Slave.isOperational,
    Bool.and_eq_true, Option.map_eq_some_iff]
  constructor
  · rintro ⟨s, hs, ha, ho⟩
    exact ⟨⟨s, hs, ha⟩, s.state, ⟨s, hs, rfl⟩, ho⟩
  · rintro ⟨⟨s, hs, ha⟩, state, ⟨s', hs', rfl⟩, ho⟩
    cases hs.symm.trans hs'
    exact ⟨s, hs, ha, ho⟩

/-- The state of a slave that is added is unknown. -/
theorem isUp_addSlave_iff (registry : Registry) (c : SlaveConfig) (b : Bus μ) (n : Nat) :
    ((addSlave registry c).result b).2.IsUp n ↔ b.IsUp n := by
  rcases state_addSlave registry c b with hb | ⟨s, t, -, hs, hb⟩
  · rw [hb]
  · rw [hb, IsUp, IsUp, states, states, List.map_append, List.map_singleton,
      (Slave.of_outcome_create hs).2.2]
    constructor
    · rintro ⟨state, hstate, ho⟩
      rw [List.getElem?_append] at hstate
      split at hstate
      · exact ⟨state, hstate, ho⟩
      · rw [List.getElem?_singleton] at hstate
        split at hstate
        · cases hstate
          cases ho
        · cases hstate
    · rintro ⟨state, hstate, ho⟩
      have hlt := (List.getElem?_eq_some_iff.1 hstate).1
      exact ⟨state, (List.getElem?_append_left hlt).trans hstate, ho⟩

variable [Master μ]

theorem states_write (b : Bus μ) : b.write.value.states = b.states :=
  map_writeAll Slave.state_write b.slaves b.master

theorem states_activateAll (slaves : List Slave) (m : μ) :
    (activateAll slaves m).value.1.map (·.state) = slaves.map (·.state) := by
  induction slaves generalizing m with
  | nil => rfl
  | cons s rest ih =>
    simp only [activateAll, Logged.value_bind, Logged.value_pure, List.map_cons, ih,
      Slave.state_activate]

theorem states_configure (b : Bus μ) : (configure.result b).2.states = b.states := by
  rw [result_configure]
  exact states_activateAll b.slaves b.master

/-- What the master answers when it is asked for the states of slaves in their order. -/
def stateAnswers : List Slave → μ → List (Except Fault SlaveState)
  | [], _ => []
  | s :: rest, m =>
    let (answer, m) := Master.slaveState s.site.position m
    answer :: stateAnswers rest m

/-- The master answers to the input half of a cycle that the slave with this number is
operational. -/
def Finds (b : Bus μ) (n : Nat) : Prop :=
  ∃ state, (stateAnswers b.slaves b.master)[n]? = some (.ok state) ∧ state.operational = true

theorem states_readAll (slaves : List Slave) (m : μ) :
    (readAll slaves m).1.map (·.state) =
      (stateAnswers slaves m).map fun answer => answer.toOption.getD .unknown := by
  induction slaves generalizing m with
  | nil => rfl
  | cons s rest ih =>
    simp only [readAll, stateAnswers, List.map_cons, Slave.state_read, ih, Slave.updateState]
    rcases Master.slaveState s.site.position m with ⟨e | state, m'⟩
    · rfl
    · rfl

theorem isUp_read_iff (b : Bus μ) (n : Nat) : b.read.IsUp n ↔ b.Finds n := by
  have hstates : b.read.states =
      (stateAnswers b.slaves b.master).map fun answer => answer.toOption.getD .unknown :=
    states_readAll b.slaves b.master
  rw [IsUp, Finds, hstates]
  simp only [List.getElem?_map, Option.map_eq_some_iff]
  constructor
  · rintro ⟨state, ⟨e | found, hfound, rfl⟩, ho⟩
    · cases ho
    · exact ⟨found, hfound, ho⟩
  · rintro ⟨state, hfound, ho⟩
    exact ⟨state, ⟨_, hfound, rfl⟩, ho⟩

namespace Session

variable {registry : Registry}

/-- The latest input half of a cycle in a run finds the slave operational. -/
def FoundLast (registry : Registry) (st : Session μ) (ops : List (Operation μ)) (n : Nat) : Prop :=
  ∃ before, Latest .read ops before ∧ (st.run registry before).bus.Finds n

/-- Only the input half of a cycle says whether a slave is operational. -/
theorem isUp_perform_iff (st : Session μ) {op : Operation μ} (hop : op ≠ .read) (n : Nat) :
    (st.perform registry op).bus.IsUp n ↔ st.bus.IsUp n := by
  cases op with
  | addSlave c => exact isUp_addSlave_iff registry c st.bus n
  | configure => exact isUp_of_states_eq (states_configure st.bus) n
  | read => exact absurd rfl hop
  | write => exact isUp_of_states_eq (states_write st.bus) n
  | setPin name v => exact isUp_of_states_eq (map_putNamed fun _ _ _ => rfl) n
  | setSlavePin slave name v => exact isUp_of_states_eq (map_putNamed fun _ _ _ => rfl) n
  | alter m => rfl

theorem foundLast_append_read_iff (st : Session μ) (ops : List (Operation μ)) (n : Nat) :
    st.FoundLast registry (ops ++ [.read]) n ↔ (st.run registry ops).bus.Finds n := by
  simp only [FoundLast, latest_append_self_iff, exists_eq_left]

theorem foundLast_append_iff (st : Session μ) (ops : List (Operation μ)) {op : Operation μ}
    (hop : op ≠ .read) (n : Nat) :
    st.FoundLast registry (ops ++ [op]) n ↔ st.FoundLast registry ops n := by
  simp only [FoundLast, latest_append_iff hop]

/-- In a run the state of a slave is what the latest input half of a cycle has found, and without
any it is as it was. -/
theorem isUp_run_iff (st : Session μ) (ops : List (Operation μ)) (n : Nat) :
    (st.run registry ops).bus.IsUp n ↔
      st.FoundLast registry ops n ∨ .read ∉ ops ∧ st.bus.IsUp n := by
  induction ops using List.reverseRecOn with
  | nil =>
    constructor
    · intro h
      exact .inr ⟨List.not_mem_nil, h⟩
    · rintro (⟨before, hlatest, -⟩ | ⟨-, h⟩)
      · exact absurd hlatest not_latest_nil
      · exact h
  | append_singleton ops op ih =>
    rw [run_append_singleton]
    by_cases hop : op = .read
    · subst hop
      have hread : ((st.run registry ops).perform registry .read).bus.IsUp n ↔
          (st.run registry ops).bus.Finds n := isUp_read_iff _ n
      rw [hread, foundLast_append_read_iff]
      constructor
      · exact .inl
      · rintro (h | ⟨hnot, -⟩)
        · exact h
        · exact absurd (List.mem_append_right _ (List.mem_singleton_self _)) hnot
    · rw [isUp_perform_iff _ hop, ih, foundLast_append_iff st ops hop]
      have hmem : .read ∈ ops ++ [op] ↔ .read ∈ ops := by
        rw [List.mem_append, List.mem_singleton, or_iff_left (Ne.symm hop)]
      rw [hmem]

end Session

/-- Behind a configuration an active slave takes part in cycles if the latest input half has
found it operational since then, and also if there was none and the latest one before the
configuration had. Otherwise the output half of a cycle passes over the slave. -/
theorem takesPart_run_configure_iff (registry : Registry) (name : String) (m : μ)
    (before after : List (Operation μ)) (n : Nat) :
    (((Session.start name m).run registry (before ++ .configure :: after)).bus.TakesPart n ↔
      ((Session.start name m).run registry (before ++ .configure :: after)).bus.IsActive n ∧
        (((Session.start name m).run registry (before ++ [.configure])).FoundLast registry after n ∨
          .read ∉ after ∧ (Session.start name m).FoundLast registry before n)) ∧
      ∀ s, ((Session.start name m).run registry (before ++ .configure :: after)).bus.slaves[n]? =
        some s → s.isOperational = false → ∀ m' : μ, s.write m' = pure (s, m') := by
  have hsplit : before ++ .configure :: after = (before ++ [.configure]) ++ after := by
    rw [List.append_assoc, List.singleton_append]
  have hstart : ¬ (Session.start name m).bus.IsUp n := by
    rintro ⟨state, hstate, -⟩
    cases hstate
  have hbefore : (Session.start name m).FoundLast registry (before ++ [.configure]) n ↔
      (Session.start name m).FoundLast registry before n :=
    Session.foundLast_append_iff _ before (fun h => by cases h) n
  constructor
  · rw [takesPart_iff, hsplit, Session.run_append, Session.isUp_run_iff, Session.isUp_run_iff,
      hbefore]
    simp only [hstart, and_false, or_false]
  · intro s _ ho m'
    exact Slave.write_of_not_operational ho m'

/-- A drive on the bench is found operational and is then configured once more. No input half
follows, but a pin is set. -/
def staleOperations : List (Operation Bench) :=
  [.addSlave { name := "a", position := 0, typeName := "EM3E-556E" }, .configure, .read,
    .configure, .setPin "m0.a.srv-cia-controlword" (.u32 15)]

/-- The session of these operations, with an image that has room for all entries. -/
def staleSession : Session Bench :=
  (Session.start "m0" ⟨List.replicate 1100 0⟩).run Registry.bundled staleOperations

/-- The output half that comes next changes the image, although nobody has asked for the state
of the drive since it was configured. -/
theorem image_write_stale :
    ¬ Master.image staleSession.bus.write.value.master = Master.image staleSession.bus.master := by
  decide +kernel

end Bus

end ServoBus
