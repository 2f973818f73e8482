import ServoBus.Proofs.Bus.Read

/-!
# What lasts while the host leaves a pin alone

Between two configurations an active slave takes part in cycles, and the host sets pins. A
property of the slave lasts if no cycle ends it, and if setting pins does not either as long as
the value of one pin stays what it is. So it lasts over any run that has no configuration, if in
this run the host leaves the pin alone.
-/

namespace ServoBus

/-- The pin under a name stays the same if the shapes of all pins and its value do. -/
theorem PinTable.pin?_of_value?_eq {t t' : PinTable} (hn : t.names.Nodup)
    (hshapes : t'.shapes = t.shapes) {ref : PinRef} {p : Pin} (h : t.pin? ref = some p)
    (hvalue : t'.value? p.name = t.value? p.name) : t'.pin? ref = some p := by
  have hhas : t'.Has ref p.shape := by
    rw [Has, hshapes]
    exact has_of_pin? h
  obtain ⟨q, hq, hshape⟩ := exists_pin?_of_has hhas
  obtain ⟨name, direction, v⟩ := p
  obtain ⟨name', direction', v'⟩ := q
  simp only [Pin.shape, Pin.Shape.mk.injEq] at hshape
  obtain ⟨rfl, rfl, -⟩ := hshape
  have hn' : t'.names.Nodup := by
    rw [names, hshapes]
    exact hn
  rw [value?_of_pin? hn h, value?_of_pin? hn' hq] at hvalue
  cases hvalue
  exact hq

namespace Slave

theorem rig?_read (s : Slave) (image : Bytes) : (s.read image).rig? = s.rig? := by
  rw [read]
  split <;> rfl

/-- Nothing is read into a pin that the host sets. -/
theorem Readable.pin?_of_read {μ : Type} [Master μ] {s : Slave} {rig : Rig}
    (hs : s.Readable μ rig) {ref : PinRef} {p : Pin} (h : s.pins.pin? ref = some p)
    (hp : p.direction ≠ .output) (state : SlaveState) (image : Bytes) :
    (Slave.read { s with state } image).pins.pin? ref = some p := by
  rw [Slave.read, cyclic?]
  cases state.operational with
  | false => exact h
  | true =>
    rw [if_pos rfl, hs.active]
    exact (hs.readFrom image state).host ref p h hp

/-- A property of active slaves that no cycle ends, and that the host does not end as long as it
leaves the value of a pin alone. -/
structure Lasting (μ : Type) [Master μ] (name : String) (P : Slave → Prop) : Prop where
  active : ∀ s, P s → ∃ rig, s.rig? = some rig
  pins : ∀ s (pins : PinTable), P s → s.pins.names.Nodup → pins.shapes = s.pins.shapes →
    pins.value? name = s.pins.value? name → P { s with pins }
  read : ∀ s rig, P s → s.Readable μ rig → ∀ state image, P (Slave.read { s with state } image)
  write : ∀ s (m : μ), P s → P (s.write m).value.1

end Slave

namespace Bus

variable {μ : Type}

/-- The value of a pin of the slave with a number. -/
def slavePin? (b : Bus μ) (n : Nat) (name : String) : Option Pin.Value :=
  b.slaves[n]?.bind (·.pins.value? name)

/-- Whether the host sets a pin. -/
def Operation.isHost : Operation μ → Bool
  | setPin .. => true
  | setSlavePin .. => true
  | _ => false

/-- Setting pins changes pins alone. -/
theorem exists_pins_of_putNamed {b : Bus μ} {p : Slave → Bool} {missing : Fault} {name : String}
    {v : Pin.Value} {n : Nat} {s : Slave} (hs : b.slaves[n]? = some s) :
    ∃ pins : PinTable, pins.shapes = s.pins.shapes ∧
      (((fun slaves => { b with slaves }) <$>
        changePins p missing (·.putNamed name v) b.slaves).toOption.getD b).slaves[n]? =
          some { s with pins } := by
  let view (s : Slave) : Slave × List Pin.Shape := ({ s with pins := {} }, s.pins.shapes)
  have hview (s : Slave) (pins : PinTable) (h : pins.shapes = s.pins.shapes) :
      view { s with pins } = view s := Prod.ext rfl h
  have hmap := @map_putNamed μ _ view b p missing name v hview
  have hn := congrArg (·[n]?) hmap
  simp only [List.getElem?_map, hs, Option.map_some] at hn
  obtain ⟨s', hs', heq⟩ := Option.map_eq_some_iff.1 hn
  obtain ⟨hrest, hshapes⟩ := Prod.mk.inj heq
  refine ⟨s'.pins, hshapes, hs'.trans (congrArg some ?_)⟩
  exact congrArg (fun q : Slave => { q with pins := s'.pins }) hrest

variable [Master μ]

namespace Session

variable {registry : Registry} {st : Session μ}

/-- In a run the host never changes the value of a pin of the slave with a number. -/
def HostKeeps (registry : Registry) (n : Nat) (name : String) :
    Session μ → List (Operation μ) → Prop
  | _, [] => True
  | st, op :: ops =>
    (op.isHost = true →
        (st.perform registry op).bus.slavePin? n name = st.bus.slavePin? n name) ∧
      HostKeeps registry n name (st.perform registry op) ops

instance decidableHostKeeps (registry : Registry) (n : Nat) (name : String) :
    ∀ (st : Session μ) (ops : List (Operation μ)), Decidable (HostKeeps registry n name st ops)
  | _, [] => isTrue trivial
  | st, op :: ops =>
    have := decidableHostKeeps registry n name (st.perform registry op) ops
    inferInstanceAs (Decidable (_ ∧ _))

theorem hostKeeps_append_singleton {n : Nat} {name : String} {ops : List (Operation μ)}
    {op : Operation μ} :
    st.HostKeeps registry n name (ops ++ [op]) ↔
      st.HostKeeps registry n name ops ∧
        (op.isHost = true →
          ((st.run registry ops).perform registry op).bus.slavePin? n name =
            (st.run registry ops).bus.slavePin? n name) := by
  induction ops generalizing st with
  | nil => simp [HostKeeps, run]
  | cons first ops ih =>
    rw [List.cons_append, HostKeeps, HostKeeps, ih, and_assoc]
    rfl

variable {n : Nat} {s : Slave} {name : String} {P : Slave → Prop}

/-- What lasts is not ended by an operation that is no configuration. -/
theorem lasting_perform (hP : Slave.Lasting μ name P) (hvalid : st.Valid registry)
    (hread : ∀ rig, s.rig? = some rig → s.Readable μ rig) {op : Operation μ}
    (hop : op ≠ .configure)
    (hkeeps : op.isHost = true →
      (st.perform registry op).bus.slavePin? n name = st.bus.slavePin? n name)
    (hs : st.bus.slaves[n]? = some s) (h : P s) :
    ∃ s', (st.perform registry op).bus.slaves[n]? = some s' ∧ P s' := by
  obtain ⟨rig, hrig⟩ := hP.active s h
  have hnames := (hvalid.sound s (List.mem_of_getElem? hs) rig hrig).1.names
  -- both operations of the host come to setting pins of one slave
  have hhost {st' : Session μ} (hst : st'.bus.slavePin? n name = st.bus.slavePin? n name)
      (hpins : ∃ pins : PinTable, pins.shapes = s.pins.shapes ∧
        st'.bus.slaves[n]? = some { s with pins }) :
      ∃ s', st'.bus.slaves[n]? = some s' ∧ P s' := by
    obtain ⟨pins, hshapes, hs'⟩ := hpins
    rw [slavePin?, slavePin?, hs, hs'] at hst
    exact ⟨_, hs', hP.pins s pins h hnames hshapes hst⟩
  cases op with
  | addSlave c =>
    rw [perform]
    rcases state_addSlave registry c st.bus with hb | ⟨q, t, -, -, hb⟩
    · rw [hb]
      exact ⟨s, hs, h⟩
    · simp only [hb]
      have hlt := (List.getElem?_eq_some_iff.1 hs).1
      exact ⟨s, (List.getElem?_append_left hlt).trans hs, h⟩
  | configure => exact absurd rfl hop
  | read =>
    have hget := getElem?_readAll hs (m := st.bus.master)
    rw [Slave.updateState_eq] at hget
    exact ⟨_, hget, hP.read s rig h (hread rig hrig) _ _⟩
  | write =>
    obtain ⟨m', hget⟩ := getElem?_writeAll hs (m := st.bus.master)
    exact ⟨_, hget, hP.write s m' h⟩
  | setPin name v => exact hhost (hkeeps rfl) (exists_pins_of_putNamed hs)
  | setSlavePin slave name v => exact hhost (hkeeps rfl) (exists_pins_of_putNamed hs)
  | alter m => exact ⟨s, hs, h⟩

/-- What lasts is so until the bus is configured again, if the host leaves the pin alone. -/
theorem lasting_run (hP : Slave.Lasting μ name P) {start : String} {m : μ}
    {before after : List (Operation μ)} (hafter : .configure ∉ after)
    (hkeeps : ((Session.start start m).run registry before).HostKeeps registry n name after)
    (hs : ((Session.start start m).run registry before).bus.slaves[n]? = some s) (h : P s) :
    ∃ s', ((Session.start start m).run registry (before ++ after)).bus.slaves[n]? = some s' ∧
      P s' := by
  induction after using List.reverseRecOn with
  | nil =>
    rw [List.append_nil]
    exact ⟨s, hs, h⟩
  | append_singleton after op ih =>
    rw [List.mem_append, List.mem_singleton, not_or] at hafter
    obtain ⟨hkeeps, hstep⟩ := hostKeeps_append_singleton.1 hkeeps
    rw [← run_append] at hstep
    obtain ⟨s', hs', h'⟩ := ih hafter.1 hkeeps
    rw [← List.append_assoc, run_append_singleton]
    exact lasting_perform hP ((valid_start registry start m).run _)
      (fun rig hrig => readable_of_run hs' hrig) (Ne.symm hafter.2) hstep hs' h'

/-- What lasts and is so after a configuration is so until the next one. -/
theorem lasting_run_configured (hP : Slave.Lasting μ name P) {start : String} {m : μ}
    {before after : List (Operation μ)} (hafter : .configure ∉ after)
    (hkeeps : ((Session.start start m).run registry (before ++ [.configure])).HostKeeps registry n
      name after)
    (hs : ((Session.start start m).run registry before).bus.configured.slaves[n]? = some s)
    (h : P s) :
    ∃ s', ((Session.start start m).run registry
      (before ++ .configure :: after)).bus.slaves[n]? = some s' ∧ P s' := by
  rw [← @bus_perform_configure μ _ registry, ← run_append_singleton] at hs
  have hlast := lasting_run hP hafter hkeeps hs h
  rwa [List.append_assoc, List.singleton_append] at hlast

end Session

end Bus

end ServoBus
