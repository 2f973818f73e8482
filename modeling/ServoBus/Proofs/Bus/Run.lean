import ServoBus.Bus
import ServoBus.Proofs.Device.Bundled
import ServoBus.Proofs.Master
import ServoBus.Proofs.Slave

/-!
# Runs of a bus

A session is a bus together with the outcome of its latest configuration. A run carries out
operations one after the other, those that fail included, and between two of them the
master may become any other. What holds in every state of a run is `Valid`: active slaves
are sound, and the latest configuration failed exactly if entries of active slaves share a
bit. Only a configuration changes the frames of slaves, which is why a later cycle or a
later slave cannot break it.
-/

namespace ServoBus.Bus

variable {μ : Type}

/-- What can happen to a bus. -/
inductive Operation (μ : Type) where
  | addSlave (c : SlaveConfig)
  | configure
  | read
  | write
  | setPin (name : String) (v : Pin.Value)
  | setSlavePin (slave name : String) (v : Pin.Value)
  /-- The master becomes another one. -/
  | alter (m : μ)

/-- An operation is carried out for the last time right behind this part of a run. -/
def Latest (op : Operation μ) (ops before : List (Operation μ)) : Prop :=
  ∃ after, ops = before ++ op :: after ∧ op ∉ after

section Latest

variable {op op' : Operation μ} {ops before : List (Operation μ)}

theorem not_latest_nil : ¬ Latest op [] before := by
  rintro ⟨after, heq, -⟩
  cases before <;> cases heq

theorem latest_append_self_iff : Latest op (ops ++ [op]) before ↔ before = ops := by
  constructor
  · rintro ⟨after, heq, hafter⟩
    rcases List.eq_nil_or_concat after with rfl | ⟨after, op', rfl⟩
    · exact (List.append_inj' heq rfl).1.symm
    · rw [List.concat_eq_append, ← List.cons_append, ← List.append_assoc] at heq
      have hop := (List.append_inj' heq rfl).2
      refine absurd ?_ hafter
      rw [List.concat_eq_append, ← hop]
      exact List.mem_append_right _ (List.mem_singleton_self _)
  · rintro rfl
    exact ⟨[], rfl, List.not_mem_nil⟩

theorem latest_append_iff (hop : op' ≠ op) :
    Latest op (ops ++ [op']) before ↔ Latest op ops before := by
  constructor
  · rintro ⟨after, heq, hafter⟩
    rcases List.eq_nil_or_concat after with rfl | ⟨after, op'', rfl⟩
    · exact absurd (List.singleton_inj.1 (List.append_inj' heq rfl).2) hop
    · rw [List.concat_eq_append, ← List.cons_append, ← List.append_assoc] at heq
      refine ⟨after, (List.append_inj' heq rfl).1, ?_⟩
      intro hmem
      refine hafter ?_
      rw [List.concat_eq_append]
      exact List.mem_append_left _ hmem
  · rintro ⟨after, rfl, hafter⟩
    refine ⟨after ++ [op'], ?_, ?_⟩
    · rw [List.append_assoc, List.cons_append]
    · rw [List.mem_append, List.mem_singleton]
      rintro (hmem | hmem)
      · exact hafter hmem
      · exact hop hmem.symm

/-- There is only one last time. -/
theorem Latest.unique {before' : List (Operation μ)} (h : Latest op ops before)
    (h' : Latest op ops before') : before' = before := by
  obtain ⟨after, rfl, hafter⟩ := h
  obtain ⟨after', heq, hafter'⟩ := h'
  rcases List.append_eq_append_iff.1 heq with ⟨mid, hb, ha⟩ | ⟨mid, hb, ha⟩
  · cases mid with
    | nil => rw [hb, List.append_nil]
    | cons op' mid =>
      rw [(List.cons_eq_cons.1 ha).2] at hafter
      simp at hafter
  · cases mid with
    | nil => rw [hb, List.append_nil]
    | cons op' mid =>
      rw [(List.cons_eq_cons.1 ha).2] at hafter'
      simp at hafter'

end Latest

structure Session (μ : Type) where
  bus : Bus μ
  /-- The outcome of the latest configuration, if there was one. -/
  configured? : Option (Except Fault Nat) := none

/-- The frames of all slaves. -/
def frames (b : Bus μ) : List Slave.Frame := b.slaves.map (·.frame)

theorem activeEntries_eq (b : Bus μ) :
    b.activeEntries = (b.frames.filter (·.rig?.isSome)).flatMap (·.regs.entries) := by
  rw [activeEntries, frames, List.filter_map, List.flatMap_map]
  have h : (fun s : Slave => s.isActive) =
      (fun f : Slave.Frame => f.rig?.isSome) ∘ Slave.frame := by
    funext s
    exact s.isActive_eq
  rw [h]
  rfl

theorem activeEntries_of_frames_eq {b b' : Bus μ} (h : b'.frames = b.frames) :
    b'.activeEntries = b.activeEntries := by
  rw [activeEntries_eq, activeEntries_eq, h]

/-- A slave that is not active has no entries that count. -/
theorem activeEntries_add (b : Bus μ) {s : Slave} (hrig : s.rig? = none) :
    ({ b with slaves := b.slaves ++ [s] } : Bus μ).activeEntries = b.activeEntries := by
  have hinactive : s.isActive = false := by
    rw [Slave.isActive, hrig]
    rfl
  rw [activeEntries, List.filter_append, List.filter_singleton, hinactive]
  simp [activeEntries]

theorem exists_of_frames_eq {b b' : Bus μ} (h : b'.frames = b.frames) {s' : Slave}
    (hs' : s' ∈ b'.slaves) : ∃ s ∈ b.slaves, s'.frame = s.frame := by
  have hmem : s'.frame ∈ b.frames := by
    rw [← h]
    exact List.mem_map_of_mem hs'
  obtain ⟨s, hs, heq⟩ := List.mem_map.1 hmem
  exact ⟨s, hs, heq.symm⟩

section View

variable {α : Type} {view : Slave → α}

/-- Where all slaves differ, those that come before a slave do. -/
theorem ne_of_mem_take {slaves : List Slave} (hn : (slaves.map view).Nodup) {n : Nat} {s t : Slave}
    (hs : slaves[n]? = some s) (ht : t ∈ slaves.take n) : view t ≠ view s := by
  intro heq
  obtain ⟨i, hi⟩ := List.mem_iff_getElem?.1 ht
  rw [List.getElem?_take] at hi
  split at hi
  · next hlt =>
    have hlength : i < (slaves.map view).length := by
      rw [List.length_map]
      exact (List.getElem?_eq_some_iff.1 hi).1
    have hsame : (slaves.map view)[i]? = (slaves.map view)[n]? := by
      rw [List.getElem?_map, List.getElem?_map, hi, hs, Option.map_some, Option.map_some, heq]
    exact absurd ((List.getElem?_inj hlength hn).1 hsame) (Nat.ne_of_lt hlt)
  · cases hi

/-- Setting a pin leaves alone what does not depend on values of pins. -/
theorem map_changePins {p : Slave → Bool} {missing : Fault} {f : PinTable → Except Fault PinTable}
    (hview : ∀ (s : Slave) pins, f s.pins = .ok pins → view { s with pins } = view s)
    {slaves slaves' : List Slave} (h : changePins p missing f slaves = .ok slaves') :
    slaves'.map view = slaves.map view := by
  induction slaves generalizing slaves' with
  | nil => cases h
  | cons s rest ih =>
    rw [changePins] at h
    split at h
    · obtain ⟨pins, hpins, rfl⟩ := except_map_eq_ok_iff.1 h
      rw [List.map_cons, List.map_cons, hview s pins hpins]
    · obtain ⟨rest', hrest, rfl⟩ := except_map_eq_ok_iff.1 h
      rw [List.map_cons, List.map_cons, ih hrest]

/-- Whichever slave the pin is looked for in, and whether it is found there or not. -/
theorem map_putNamed {b : Bus μ} {p : Slave → Bool} {missing : Fault} {name : String}
    {v : Pin.Value}
    (hview : ∀ (s : Slave) pins, pins.shapes = s.pins.shapes → view { s with pins } = view s) :
    (((fun slaves => { b with slaves }) <$>
      changePins p missing (·.putNamed name v) b.slaves).toOption.getD b).slaves.map view =
        b.slaves.map view := by
  cases hput : changePins p missing (·.putNamed name v) b.slaves with
  | error e => rfl
  | ok slaves =>
    exact map_changePins (fun s pins h => hview s pins (PinTable.shapes_putNamed h)) hput

variable [Master μ]

theorem map_readAll
    (hview : ∀ (s : Slave) (m : μ) image, view ((s.updateState m).1.read image) = view s)
    (slaves : List Slave) (m : μ) : (readAll slaves m).1.map view = slaves.map view := by
  induction slaves generalizing m with
  | nil => rfl
  | cons s rest ih => simp only [readAll, List.map_cons, ih, hview]

theorem map_writeAll (hview : ∀ (s : Slave) (m : μ), view (s.write m).value.1 = view s)
    (slaves : List Slave) (m : μ) : (writeAll slaves m).value.1.map view = slaves.map view := by
  induction slaves generalizing m with
  | nil => rfl
  | cons s rest ih =>
    simp only [writeAll, Logged.value_bind, Logged.value_pure, List.map_cons, ih, hview]

end View

section Frames

variable [Master μ]

theorem frames_read (b : Bus μ) : b.read.frames = b.frames := by
  refine map_readAll (fun s m image => ?_) b.slaves b.master
  rw [Slave.frame_read, Slave.frame_updateState]

theorem frames_write (b : Bus μ) : b.write.value.frames = b.frames :=
  map_writeAll Slave.frame_write b.slaves b.master

end Frames

/-- A slave that is added was created for a registered type. Nothing else changes. -/
theorem state_addSlave (registry : Registry) (c : SlaveConfig) (b : Bus μ) :
    ((addSlave registry c).result b).2 = b ∨
      ∃ s : Slave, ∃ t ∈ registry.types, (Slave.create b.name c t).outcome = .ok s ∧
        ((addSlave registry c).result b).2 = { b with slaves := b.slaves ++ [s] } := by
  rw [addSlave, Action.result_bind]
  simp only [Action.result_get, Action.result_bind, Action.result_noting, Registry.find]
  cases hfind : registry.types.find? (·.name == c.typeName) with
  | none => exact .inl rfl
  | some t =>
    have ht : (MonadExcept.ofExcept (.ok t) : Action (Bus μ) DeviceType).result b =
        (.ok t, b) := rfl
    simp only [ht, Action.result_ofChecked]
    cases hcreate : (Slave.create b.name c t).outcome with
    | error e => exact .inl rfl
    | ok s => exact .inr ⟨s, t, List.mem_of_find?_eq_some hfind, hcreate, rfl⟩

section Configure

variable [Master μ]

/-- Whatever comes out of an activation, an active slave is sound. -/
theorem of_mem_activateAll {slaves : List Slave} {m : μ} {s' : Slave}
    (hs' : s' ∈ (activateAll slaves m).value.1) :
    s'.Sound μ ∧ ∃ s ∈ slaves, s'.type = s.type := by
  induction slaves generalizing m with
  | nil => cases hs'
  | cons s rest ih =>
    simp only [activateAll, Logged.value_bind, Logged.value_pure] at hs'
    rcases List.mem_cons.1 hs' with rfl | hs'
    · exact ⟨s.sound_activate m, s, List.mem_cons_self, (s.identity_activate m).2⟩
    · obtain ⟨hsound, q, hq, htype⟩ := ih hs'
      exact ⟨hsound, q, List.mem_cons_of_mem _ hq, htype⟩

/-- The bus after a configuration, successful or not. -/
def configured (b : Bus μ) : Bus μ :=
  { b with
    slaves := (activateAll b.slaves b.master).value.1
    master := (activateAll b.slaves b.master).value.2 }

theorem result_configure (b : Bus μ) :
    configure.result b =
      (((checkOverlap b.configured.activeEntries).outcome.map fun _ => b.configured.activeCount),
        b.configured) := by
  have hcheck : (Action.ofChecked (checkOverlap b.configured.activeEntries) :
      Action (Bus μ) Unit).result b.configured =
        ((checkOverlap b.configured.activeEntries).outcome, b.configured) := rfl
  rw [configure, Action.result_bind]
  simp only [Action.result_get, Action.result_bind, Action.result_lift, Action.result_set]
  rw [← configured, hcheck]
  cases (checkOverlap b.configured.activeEntries).outcome with
  | error e => rfl
  | ok u => rfl

end Configure

section Outcome

variable {c : Option (Except Fault Nat)}

theorem exists_ok_of_any (h : (c.any fun r => r.isOk) = true) : ∃ n, c = some (.ok n) := by
  cases c with
  | none => cases h
  | some r =>
    cases r with
    | error e => cases h
    | ok n => exact ⟨n, rfl⟩

theorem exists_error_of_any (h : (c.any fun r => !r.isOk) = true) : ∃ e, c = some (.error e) := by
  cases c with
  | none => cases h
  | some r =>
    cases r with
    | error e => exact ⟨e, rfl⟩
    | ok n => cases h

end Outcome

namespace Session

/-- A bus without slaves. -/
def start (name : String) (m : μ) : Session μ := { bus := { name, master := m } }

variable [Master μ]

/-- Carries out an operation. One that fails on pins leaves the bus as it was. -/
def perform (registry : Registry) (st : Session μ) : Operation μ → Session μ
  | .addSlave c => { st with bus := ((addSlave registry c).result st.bus).2 }
  | .configure => ⟨(configure.result st.bus).2, some (configure.result st.bus).1⟩
  | .read => { st with bus := st.bus.read }
  | .write => { st with bus := st.bus.write.value }
  | .setPin name v => { st with bus := (st.bus.setPin name v).toOption.getD st.bus }
  | .setSlavePin slave name v =>
    { st with bus := (st.bus.setSlavePin slave name v).toOption.getD st.bus }
  | .alter m => { st with bus := { st.bus with master := m } }

def run (registry : Registry) (st : Session μ) (ops : List (Operation μ)) : Session μ :=
  ops.foldl (perform registry) st

/-- What holds of a session in every state. -/
structure Valid (registry : Registry) (st : Session μ) : Prop where
  sound : ∀ s ∈ st.bus.slaves, s.Sound μ
  known : ∀ s ∈ st.bus.slaves, s.type ∈ registry.types
  unchecked : st.configured? = none → st.bus.activeEntries = []
  checked : ∀ r, st.configured? = some r →
    r.isOk = (checkOverlap st.bus.activeEntries).outcome.isOk

variable {registry : Registry} {st st' : Session μ}

theorem run_append (st : Session μ) (ops ops' : List (Operation μ)) :
    st.run registry (ops ++ ops') = (st.run registry ops).run registry ops' := List.foldl_append

theorem run_append_singleton (st : Session μ) (ops : List (Operation μ)) (op : Operation μ) :
    st.run registry (ops ++ [op]) = (st.run registry ops).perform registry op := List.foldl_append

theorem valid_start (registry : Registry) (name : String) (m : μ) :
    (start name m).Valid registry where
  sound s hs := by cases hs
  known s hs := by cases hs
  unchecked _ := rfl
  checked r hr := by cases hr

theorem Valid.of_frames_eq (h : st.Valid registry) (hf : st'.bus.frames = st.bus.frames)
    (hc : st'.configured? = st.configured?) : st'.Valid registry := by
  have hentries := activeEntries_of_frames_eq hf
  constructor
  case sound =>
    intro s' hs'
    obtain ⟨s, hs, heq⟩ := exists_of_frames_eq hf hs'
    exact (h.sound s hs).of_frame_eq heq
  case known =>
    intro s' hs'
    obtain ⟨s, hs, heq⟩ := exists_of_frames_eq hf hs'
    have htype : s'.type = s.type := congrArg Slave.Frame.type heq
    rw [htype]
    exact h.known s hs
  case unchecked =>
    rw [hc, hentries]
    exact h.unchecked
  case checked =>
    rw [hc, hentries]
    exact h.checked

/-- A slave that is not active adds nothing to what was checked. -/
theorem Valid.add_slave (h : st.Valid registry) {s : Slave} (hrig : s.rig? = none)
    (htype : s.type ∈ registry.types) :
    Valid registry { st with bus := { st.bus with slaves := st.bus.slaves ++ [s] } } := by
  have hentries := st.bus.activeEntries_add hrig
  constructor
  case sound =>
    intro s' hs'
    rcases List.mem_append.1 hs' with hs' | hs'
    · exact h.sound s' hs'
    · rw [List.mem_singleton] at hs'
      intro rig hr
      rw [hs', hrig] at hr
      cases hr
  case known =>
    intro s' hs'
    rcases List.mem_append.1 hs' with hs' | hs'
    · exact h.known s' hs'
    · rw [List.mem_singleton] at hs'
      rw [hs']
      exact htype
  case unchecked =>
    intro hc
    rw [hentries]
    exact h.unchecked hc
  case checked =>
    intro r hr
    rw [hentries]
    exact h.checked r hr

/-- A configuration starts anew, so it does not matter what was checked before it. -/
theorem Valid.configure (h : st.Valid registry) :
    (st.perform registry .configure).Valid registry := by
  rw [perform, result_configure]
  constructor
  case sound =>
    intro s' hs'
    exact (of_mem_activateAll hs').1
  case known =>
    intro s' hs'
    obtain ⟨-, s, hs, htype⟩ := of_mem_activateAll hs'
    rw [htype]
    exact h.known s hs
  case unchecked =>
    intro hc
    cases hc
  case checked =>
    intro r hr
    cases hr
    cases (checkOverlap st.bus.configured.activeEntries).outcome with
    | error e => rfl
    | ok u => rfl

theorem Valid.perform (h : st.Valid registry) (op : Operation μ) :
    (st.perform registry op).Valid registry := by
  cases op with
  | addSlave c =>
    rcases state_addSlave registry c st.bus with hb | ⟨s, t, ht, hs, hb⟩
    · rw [Session.perform, hb]
      exact h
    · obtain ⟨hrig, rfl, -⟩ := Slave.of_outcome_create hs
      rw [Session.perform, hb]
      exact h.add_slave hrig ht
  | configure => exact h.configure
  | read => exact h.of_frames_eq (frames_read _) rfl
  | write => exact h.of_frames_eq (frames_write _) rfl
  | setPin name v => exact h.of_frames_eq (map_putNamed fun s _ => s.frame_of_pins) rfl
  | setSlavePin slave name v => exact h.of_frames_eq (map_putNamed fun s _ => s.frame_of_pins) rfl
  | alter m => exact h.of_frames_eq rfl rfl

theorem Valid.run (h : st.Valid registry) (ops : List (Operation μ)) :
    (st.run registry ops).Valid registry := by
  induction ops generalizing st with
  | nil => exact h
  | cons op ops ih => exact ih (h.perform op)

/-- No active slave has an entry without bits. -/
theorem Valid.width_pos (h : st.Valid registry) :
    ∀ e ∈ st.bus.activeEntries, 0 < e.width := by
  intro e he
  obtain ⟨s, hs, hes⟩ := List.mem_flatMap.1 he
  obtain ⟨hs, hactive⟩ := List.mem_filter.1 hs
  obtain ⟨rig, hrig⟩ := Option.isSome_iff_exists.1 hactive
  have hwidth := (h.sound s hs rig hrig).1.widths e.unplaced (List.mem_map_of_mem hes)
  rw [Registration.width_unplaced] at hwidth
  simp only [List.mem_cons, List.not_mem_nil, or_false] at hwidth
  omega

/-- The latest configuration did not fail exactly if no two active entries share a bit. -/
theorem Valid.apart_iff (h : st.Valid registry) :
    st.bus.activeEntries.Pairwise Registration.Apart ↔
      ∀ e, st.configured? ≠ some (.error e) := by
  rw [← outcome_checkOverlap_eq_ok_iff h.width_pos]
  cases hc : st.configured? with
  | none =>
    rw [h.unchecked hc]
    constructor
    · intro _ e he
      cases he
    · intro _
      rfl
  | some r =>
    have hr := h.checked r hc
    constructor
    · intro hok e he
      cases he
      rw [hok] at hr
      cases hr
    · intro hne
      cases r with
      | error e => exact absurd rfl (hne e)
      | ok n =>
        cases hcheck : (checkOverlap st.bus.activeEntries).outcome with
        | error e =>
          rw [hcheck] at hr
          cases hr
        | ok u => rfl

end Session

/-- In every state of a run the entries of all active slaves are apart unless the latest
configuration has failed: a failed one leaves the slaves active whose entries share bits. -/
theorem apart_run_iff [Master μ] (registry : Registry) (name : String) (m : μ)
    (ops : List (Operation μ)) :
    ((Session.start name m).run registry ops).bus.activeEntries.Pairwise Registration.Apart ↔
      ∀ e, ((Session.start name m).run registry ops).configured? ≠ some (.error e) :=
  ((Session.valid_start registry name m).run ops).apart_iff

/-- Two drives that are given the same offsets stay active, although the configuration that
activated them has failed. -/
theorem overlap_of_shared_offsets :
    ¬ ((Session.start "m0" (⟨[]⟩ : Bench)).run Registry.bundled
        [.addSlave { name := "a", position := 0, typeName := "EM3E-556E" },
          .addSlave { name := "b", position := 1, typeName := "EM3E-556E" },
          .configure]).bus.activeEntries.Pairwise Registration.Apart := by
  intro h
  have hne := ((Session.valid_start Registry.bundled "m0" (⟨[]⟩ : Bench)).run _).apart_iff.1 h
  exact (exists_error_of_any (by decide +kernel)).elim hne

end ServoBus.Bus
