import ServoBus.Proofs.Device.Wired
import ServoBus.Proofs.Slave.History
import ServoBus.Station

/-!
# What a station does is what its slave does

Nothing of what a driver was before an activation can be seen when the activation has succeeded,
and a driver is not seen while its station is inactive. So every event makes of the slave that a
station stands for what it makes of any slave. Only the drivers of generic drives need a word:
no line is ever put into them, which is why it does no harm that their lines are not taken away
(`Station.Fits`).
-/

namespace ServoBus.Station

variable {μ α β : Type}

theorem result_aside (x : Setup μ α) (d : Rig) (w : Workspace μ) :
    (aside x).result (d, w) = ((x.result w).1, d, (x.result w).2) := rfl

theorem result_aside_bind (x : Setup μ α) (f : α → Fitting μ β) (d : Rig) (w : Workspace μ) :
    (aside x >>= f).result (d, w) =
      match x.result w with
      | (.ok a, w) => (f a).result (d, w)
      | (.error e, w) => (.error e, d, w) := by
  rw [Action.result_bind, result_aside]
  rcases x.result w with ⟨e | a, w'⟩ <;> rfl

theorem result_onDriver (f : Rig → Rig) (d : Rig) (w : Workspace μ) :
    (onDriver f).result (d, w) = (.ok (), f d, w) := rfl

theorem result_onDriver_bind (f : Rig → Rig) (g : Unit → Fitting μ β) (d : Rig)
    (w : Workspace μ) : (onDriver f >>= g).result (d, w) = (g ()).result (f d, w) := by
  rw [Action.result_bind, result_onDriver]

/-- The driver has no lines unless it is one of a stepper drive. -/
def FitsType (t : DeviceType) (d : Rig) : Prop :=
  t.family = .generic → d.inputs = [] ∧ d.outputs = []

def Fits (s : Station) : Prop := FitsType s.type s.driver

section Fitting

variable [Master μ] {site : Site} {settings : List Param.Setting}

/-- A setup that ends with the driver as its value. -/
def shown (y : Except Fault Unit × Rig × Workspace μ) : Except Fault Rig × Workspace μ :=
  (y.1.map fun _ => y.2.1, y.2.2)

theorem result_fitGeneric (site : Site) (settings : List Param.Setting) {d : Rig}
    (hd : d.inputs = [] ∧ d.outputs = []) (w : Workspace μ) :
    (Generic.setUp site settings).result w =
        shown ((fitGeneric site settings).result (d, w)) ∧
      ((fitGeneric site settings).result (d, w)).2.1.inputs = [] ∧
      ((fitGeneric site settings).result (d, w)).2.1.outputs = [] := by
  rw [fitGeneric, result_aside_bind]
  rcases hset : (Generic.setUp site settings).result w with ⟨e | rig, w'⟩
  · exact ⟨rfl, hd⟩
  · obtain ⟨o, w₁, cs, -, -, rfl⟩ := Generic.exists_of_result_setUp hset
    refine ⟨?_, hd⟩
    simp only [result_onDriver, shown, Except.map, hd.1, hd.2]

omit [Master μ] in
theorem result_fitLines (l : List (Axis.Channel × Axis.ChannelOptions)) (d : Rig)
    (w : Workspace μ) :
    (Stepper.addChannelLines site d l).result w = shown ((fitLines site l).result (d, w)) := by
  induction l generalizing d w with
  | nil => rfl
  | cons x l ih =>
    obtain ⟨c, o⟩ := x
    rw [Stepper.addChannelLines, fitLines, Action.result_bind, result_aside_bind]
    rcases (Stepper.addPacked site o.label .output
      (Stepper.namedInputs ++ Stepper.numberedInputs o.digitalInputs)
        (c.entry? .digitalInput)).result w with ⟨e | inputs, w₁⟩
    · rfl
    dsimp only
    rw [Action.result_bind, result_onDriver_bind, result_aside_bind]
    rcases (Stepper.addPacked site o.label .input (Stepper.numberedOutputs o.digitalOutputs)
      (c.entry? .digitalOutput)).result w₁ with ⟨e | outputs, w₂⟩
    · rfl
    · dsimp only
      rw [result_onDriver_bind]
      exact ih _ _

theorem result_fitStepper (t : DeviceType) (d : Rig) (w : Workspace μ) :
    (Stepper.setUp t site settings).result w =
      shown ((fitStepper t site settings).result (d, w)) := by
  rw [Stepper.setUp, fitStepper, Action.result_bind, result_aside_bind]
  rcases Action.result (settings.foldlM (Stepper.apply site)
    (Stepper.initialOptions t.axes t.digitalInputs t.digitalOutputs)) w with ⟨e | o, w₁⟩
  · rfl
  dsimp only
  rw [Action.result_bind, result_aside_bind]
  rcases (Axis.configure site o.numberLabels).result w₁ with ⟨e | cs, w₂⟩
  · rfl
  · dsimp only
    rw [result_onDriver_bind, result_onDriver_bind]
    exact result_fitLines _ _ _

/-- Whatever the driver was before, fitting it out comes to what a setup comes to. -/
theorem result_fit (site : Site) (settings : List Param.Setting) {t : DeviceType} {d : Rig}
    (hd : FitsType t d) (w : Workspace μ) :
    (t.setUp site settings).result w = shown ((fit t site settings).result (d, w)) ∧
      FitsType t ((fit t site settings).result (d, w)).2.1 := by
  unfold DeviceType.setUp fit FitsType
  cases hfamily : t.family with
  | generic =>
    have h := result_fitGeneric site settings (hd hfamily) w
    exact ⟨h.1, fun _ => h.2⟩
  | stepper => exact ⟨result_fitStepper t d w, fun h => by cases h⟩

theorem slave_setUp (s : Station) :
    (s.slave.setUp : Setup μ Rig) = (do
      let rig ← s.type.setUp s.site s.settings
      (fun _ => rig) <$> s.commit) := by
  simp only [Slave.setUp, Slave.prepare, commit, map_eq_pure_bind, bind_assoc, pure_bind]
  rfl

theorem result_setUp {s : Station} (hs : s.Fits) (w : Workspace μ) :
    s.slave.setUp.result w = shown (s.setUp.result (s.driver, w)) ∧
      FitsType s.type (s.setUp.result (s.driver, w)).2.1 := by
  obtain ⟨hresult, hfits⟩ := result_fit s.site s.settings hs w
  rw [slave_setUp, setUp, Action.result_bind, Action.result_bind, hresult]
  generalize (fit s.type s.site s.settings).result (s.driver, w) = y at hfits
  rcases y with ⟨e | u, d, w₁⟩
  · exact ⟨rfl, hfits⟩
  · refine ⟨?_, hfits⟩
    simp only [shown, Except.map, result_aside]
    exact Action.result_map _ _ _

end Fitting

section Event

variable [Master μ]

theorem value_activate (s : Station) (m : μ) :
    (s.activate m).value =
      match s.setUp.result (s.driver, ⟨m, s.syncs.cleared, s.regs.cleared, {}⟩) with
      | (.ok (), driver, w) =>
        (.ok (), { s with
          syncs := w.syncs, regs := w.regs, pins := w.pins, driver, active := true }, w.master)
      | (.error e, driver, w) =>
        (.error e, { s.cleared with driver, active := false }, w.master) := by
  simp only [activate, Logged.value_bind, Action.result, cleared]
  rcases (s.setUp.exec (s.driver, ⟨m, s.syncs.cleared, s.regs.cleared, {}⟩)).value with
    ⟨_ | _, d, w⟩ <;> rfl

/-- A station is activated as its slave is. -/
theorem slave_activate {s : Station} (hs : s.Fits) (m : μ) :
    (s.slave.activate m).value =
        ((s.activate m).value.1, (s.activate m).value.2.1.slave, (s.activate m).value.2.2) ∧
      (s.activate m).value.2.1.Fits := by
  obtain ⟨hresult, hfits⟩ :=
    result_setUp hs (⟨m, s.syncs.cleared, s.regs.cleared, {}⟩ : Workspace μ)
  have hslave : s.slave.setUp.result ⟨m, s.slave.syncs.cleared, s.slave.regs.cleared, {}⟩ = _ :=
    hresult
  rw [Slave.value_activate, value_activate, hslave]
  generalize s.setUp.result (s.driver, ⟨m, s.syncs.cleared, s.regs.cleared, {}⟩) = y at hfits
  rcases y with ⟨e | u, d, w⟩
  · exact ⟨rfl, hfits⟩
  · exact ⟨rfl, hfits⟩

theorem active_of_activate {s : Station} {m : μ} (h : (s.activate m).value.1 = .ok ()) :
    (s.activate m).value.2.1.active = true := by
  rw [value_activate] at h ⊢
  split at h
  · rfl
  · cases h

theorem rig?_slave_eq_some_iff {s : Station} {d : Rig} :
    s.slave.rig? = some d ↔ s.active = true ∧ s.driver = d := by
  unfold slave
  cases s.active <;> simp

theorem cyclic?_slave (s : Station) :
    s.slave.cyclic? = if s.isOperational then some s.driver else none := by
  unfold Slave.cyclic? isOperational slave
  cases s.state.operational <;> cases s.active <;> rfl

theorem slave_updateState (s : Station) (m : μ) :
    s.slave.updateState m = ((s.updateState m).1.slave, (s.updateState m).2) := by
  have hposition : s.slave.site.position = s.site.position := rfl
  unfold Slave.updateState updateState
  rw [hposition]
  rcases Master.slaveState s.site.position m with ⟨e | state, m'⟩ <;> rfl

theorem slave_read (s : Station) (image : Bytes) :
    s.slave.read image = (s.read image).slave := by
  rw [Slave.read, read, cyclic?_slave]
  cases s.isOperational <;> rfl

theorem slave_write (s : Station) (m : μ) :
    (s.slave.write m).value = ((s.write m).value.1.slave, (s.write m).value.2) := by
  rw [Slave.write, write, cyclic?_slave]
  cases h : s.isOperational with
  | false => rfl
  | true =>
    have hactive : s.active = true := (Bool.and_eq_true_iff.1 h).1
    simp only [↓reduceIte, Logged.value_bind, Logged.value_pure, slave, hactive]

/-- What an event makes of a station and its master. -/
def handle : Station × μ → Slave.Event μ → Station × μ
  | (s, m), .activate => (s.activate m).value.2
  | (s, m), .updateState => s.updateState m
  | (s, m), .read => (s.read (Master.image m), m)
  | (s, m), .write => (s.write m).value
  | (s, m), .change f => ({ s with pins := f s.pins }, m)
  | (s, _), .alter m => (s, m)

/-- The station and the master behind events. -/
def after (s : Station) (m : μ) (events : List (Slave.Event μ)) : Station × μ :=
  events.foldl handle (s, m)

theorem fits_handle {x : Station × μ} (hx : x.1.Fits) (e : Slave.Event μ) :
    (handle x e).1.Fits := by
  obtain ⟨s, m⟩ := x
  cases e with
  | activate => exact (slave_activate hx m).2
  | updateState =>
    rw [handle, updateState]
    split <;> exact hx
  | read =>
    rw [handle, read]
    split <;> exact hx
  | write =>
    rw [handle, write]
    split <;> exact hx
  | change f => exact hx
  | alter m' => exact hx

theorem slave_handle {x : Station × μ} (hx : x.1.Fits) (e : Slave.Event μ) :
    Slave.handle (x.1.slave, x.2) e = ((handle x e).1.slave, (handle x e).2) := by
  obtain ⟨s, m⟩ := x
  cases e with
  | activate => exact congrArg Prod.snd (slave_activate hx m).1
  | updateState => exact s.slave_updateState m
  | read => exact congrArg (·, m) (s.slave_read (Master.image m))
  | write => exact s.slave_write m
  | change f => rfl
  | alter m' => rfl

/-- Whatever happens to a station happens to its slave. -/
theorem slave_after {s : Station} (hs : s.Fits) (m : μ) (events : List (Slave.Event μ)) :
    s.slave.after m events = ((s.after m events).1.slave, (s.after m events).2) ∧
      (s.after m events).1.Fits := by
  have hfold (x : Station × μ) (hx : x.1.Fits) :
      events.foldl Slave.handle (x.1.slave, x.2) =
          ((events.foldl handle x).1.slave, (events.foldl handle x).2) ∧
        (events.foldl handle x).1.Fits := by
    induction events generalizing x with
    | nil => exact ⟨rfl, hx⟩
    | cons e events ih =>
      rw [List.foldl_cons, List.foldl_cons, slave_handle hx]
      exact ih (handle x e) (fits_handle hx e)
  exact hfold (s, m) hs

end Event

/-- A new station stands for a new slave, and its driver has no lines. -/
theorem of_outcome_create {master : String} {c : SlaveConfig} {t : DeviceType} {s : Station}
    (h : (create master c t).outcome = .ok s) :
    (Slave.create master c t).outcome = .ok s.slave ∧ s.Fits := by
  rw [create, Checked.outcome_bind] at h
  cases hs : (Slave.create master c t).outcome with
  | error e =>
    rw [hs] at h
    cases h
  | ok s' =>
    rw [hs] at h
    cases h
    refine ⟨?_, fun _ => ⟨rfl, rfl⟩⟩
    obtain ⟨site, settings, -, rfl⟩ := Slave.exists_of_outcome_create hs
    rfl

end ServoBus.Station
