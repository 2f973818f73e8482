import ServoBus.Proofs.Bus.Blank
import ServoBus.Proofs.Bus.Read
import ServoBus.Proofs.Slave.Words

/-!
# Runs in machine words

A run of a bus on a machine whose counts have to fit is the run with exact numbers, as long as it
does not break. With devices whose lines all have bits of their own, like the bundled ones, and with
a modest master it never does. With any other master it can only break in a configuration, when an
entry is placed where its bits cannot be counted. After a configuration that did not break the bits
of all active entries can be counted, whatever its outcome is, so that no cycle breaks until the
next one.

What was shown of a run with exact numbers and of its cycles therefore holds of a run in words, and
the cycles are carried out to their ends.
-/

namespace ServoBus

variable {μ : Type} [Master μ]

theorem Master.Modest.traced (h : Master.Modest μ) : Master.Modest (Traced μ) := by
  intro slave a t t' o ht
  obtain ⟨ho, -⟩ := Prod.mk.inj ht
  exact h slave a t.master _ o (Prod.ext ho rfl)

namespace Bus

section Configure

theorem yields_activateAll (slaves : List Slave) (m : μ) :
    Yields (Master.Modest μ) (activateAll? slaves m).run.value (activateAll slaves m).value := by
  induction slaves generalizing m with
  | nil => exact yields_some _
  | cons s rest ih =>
    rw [activateAll?, Logged.value_run_bind]
    refine (s.yields_activate m).bind fun _ => ?_
    rw [Logged.value_run_bind]
    exact (ih (s.activate m).value.2.2).bind fun _ => yields_some _

/-- The bus with slaves and a master that an activation of all slaves has left behind. -/
def withSlaves (b : Bus μ) (x : List Slave × μ) : Bus μ := { b with slaves := x.1, master := x.2 }

/-- Behind the activations of a configuration only the check for overlaps is left. -/
theorem result?_configure? (b : Bus μ) :
    configure?.result? b = (activateAll? b.slaves b.master).run.value.bind fun x =>
      (checkOverlap? (b.withSlaves x).activeEntries).map fun check =>
        (check.outcome.map fun _ => (b.withSlaves x).activeCount, b.withSlaves x) := by
  rw [configure?, Brittle.result?_bind, Brittle.result?_get]
  dsimp only
  rw [Brittle.result?_bind, Brittle.result?_lift]
  cases (activateAll? b.slaves b.master).run.value with
  | none => rfl
  | some x =>
    rw [Option.map_some, Option.bind_some]
    dsimp only
    rw [← withSlaves, Brittle.result?_bind, Brittle.result?_set]
    dsimp only
    rw [Brittle.result?_bind, Brittle.result?_checkOverlap]
    cases checkOverlap? (b.withSlaves x).activeEntries with
    | none => rfl
    | some check =>
      rw [Option.map_some, Option.map_some]
      rcases check.outcome with e | u <;> rfl

/-- A modest master places the entries of all active slaves where their bits can be counted. -/
theorem fits_of_modest (hμ : Master.Modest μ) {b : Bus μ} (h : ∀ s ∈ b.slaves, s.Sound μ) :
    ∀ e ∈ b.activeEntries, e.Fits := by
  intro e he
  obtain ⟨s, hs, he⟩ := List.mem_flatMap.1 he
  obtain ⟨hs, hactive⟩ := List.mem_filter.1 hs
  obtain ⟨rig, hrig⟩ := Option.isSome_iff_exists.1 hactive
  obtain ⟨hwired, hplaced⟩ := h s hs rig hrig
  exact hplaced.fits hμ (fun e he => hwired.widths e.unplaced (List.mem_map_of_mem he)) e he

theorem yields_configure (b : Bus μ) :
    Yields (Master.Modest μ) (configure?.result? b) (configure.result b) := by
  rw [result?_configure?, result_configure]
  refine (yields_activateAll b.slaves b.master).bind fun _ => ?_
  have hcheck := (yields_checkOverlap b.configured.activeEntries).mono fun hμ =>
    fits_of_modest hμ fun s hs => (of_mem_activateAll hs).1
  exact hcheck.map fun check => (check.outcome.map fun _ => b.configured.activeCount, b.configured)

/-- After a configuration that did not break the bits of all active entries can be counted. -/
theorem fits_of_configure? {b : Bus μ} {x : Except Fault Nat × Bus μ}
    (h : configure?.result? b = some x) : ∀ e ∈ x.2.activeEntries, e.Fits := by
  rw [result?_configure?] at h
  obtain ⟨y, -, h⟩ := Option.bind_eq_some_iff.1 h
  obtain ⟨check, hcheck, rfl⟩ := Option.map_eq_some_iff.1 h
  exact (checkOverlap?_eq_some_iff.1 hcheck).1

end Configure

section Cycle

theorem yields_readAll (slaves : List Slave) (m : μ) :
    Yields (∀ s ∈ slaves, s.Within) (readAll? slaves m) (readAll slaves m) := by
  induction slaves generalizing m with
  | nil => exact yields_some _
  | cons s rest ih =>
    have hs : (∀ q ∈ s :: rest, q.Within) → (s.updateState m).1.Within := by
      rw [s.updateState_eq]
      exact fun h => h s List.mem_cons_self
    refine (((s.updateState m).1.yields_read _).mono hs).bind fun _ => ?_
    exact ((ih _).mono fun h q hq => h q (List.mem_cons_of_mem _ hq)).bind fun _ => yields_some _

theorem yields_writeAll (slaves : List Slave) (m : μ) :
    Yields (∀ s ∈ slaves, s.Within) (writeAll? slaves m).run.value (writeAll slaves m).value := by
  induction slaves generalizing m with
  | nil => exact yields_some _
  | cons s rest ih =>
    rw [writeAll?, Logged.value_run_bind]
    refine ((s.yields_write m).mono fun h => h s List.mem_cons_self).bind fun _ => ?_
    rw [Logged.value_run_bind]
    exact ((ih _).mono fun h q hq => h q (List.mem_cons_of_mem _ hq)).bind fun _ => yields_some _

theorem yields_read (b : Bus μ) : Yields (∀ s ∈ b.slaves, s.Within) b.read? b.read :=
  (yields_readAll b.slaves b.master).bind fun _ => yields_some _

theorem yields_write (b : Bus μ) :
    Yields (∀ s ∈ b.slaves, s.Within) b.write?.run.value b.write.value := by
  rw [write?, Logged.value_run_bind]
  exact (yields_writeAll b.slaves b.master).bind fun _ => yields_some _

end Cycle

namespace Session

variable {registry : Registry} {st st' : Session μ} {name : String} {m : μ}
  {ops : List (Operation μ)}

/-- Carries out an operation in words. -/
def perform? (registry : Registry) (st : Session μ) : Operation μ → Option (Session μ)
  | .configure => (configure?.result? st.bus).map fun x => ⟨x.2, some x.1⟩
  | .read => st.bus.read?.map fun bus => { st with bus }
  | .write => st.bus.write?.run.value.map fun bus => { st with bus }
  | .addSlave c => some (st.perform registry (.addSlave c))
  | .setPin name v => some (st.perform registry (.setPin name v))
  | .setSlavePin slave name v => some (st.perform registry (.setSlavePin slave name v))
  | .alter m => some (st.perform registry (.alter m))

def run? (registry : Registry) (st : Session μ) (ops : List (Operation μ)) :
    Option (Session μ) :=
  ops.foldlM (perform? registry) st

theorem run?_append (st : Session μ) (ops ops' : List (Operation μ)) :
    st.run? registry (ops ++ ops') =
      (st.run? registry ops).bind fun st => st.run? registry ops' := List.foldlM_append

theorem run?_append_singleton (st : Session μ) (ops : List (Operation μ)) (op : Operation μ) :
    st.run? registry (ops ++ [op]) =
      (st.run? registry ops).bind fun st => st.perform? registry op := by
  rw [run?_append]
  refine congrArg _ (funext fun st => ?_)
  exact bind_pure _

/-- Configurations depend on the master, and cycles on what the slaves have to count. -/
theorem yields_perform (st : Session μ) (op : Operation μ) :
    Yields (Master.Modest μ ∧ ∀ s ∈ st.bus.slaves, s.Within) (st.perform? registry op)
      (st.perform registry op) := by
  cases op with
  | configure => exact ((yields_configure st.bus).mono And.left).map _
  | read => exact ((yields_read st.bus).mono And.right).map _
  | write => exact ((yields_write st.bus).mono And.right).map _
  | _ => exact yields_some _

/-- A run in words that did not break is the run with exact numbers. -/
theorem eq_run_of_run? (h : st.run? registry ops = some st') : st' = st.run registry ops :=
  (Yields.foldlM (fun op _ st => (yields_perform st op).mono False.elim) st).eq st' h

/-- Only a configuration decides which entries are active. -/
theorem activeEntries_perform (st : Session μ) {op : Operation μ} (hop : op ≠ .configure) :
    (st.perform registry op).bus.activeEntries = st.bus.activeEntries := by
  cases op with
  | addSlave c =>
    rcases state_addSlave registry c st.bus with hb | ⟨s, t, -, hs, hb⟩
    · rw [perform, hb]
    · rw [perform, hb]
      exact st.bus.activeEntries_add (Slave.of_outcome_create hs).1
  | configure => exact absurd rfl hop
  | read => exact activeEntries_of_frames_eq (frames_read _)
  | write => exact activeEntries_of_frames_eq (frames_write _)
  | setPin name v => exact activeEntries_of_frames_eq (map_putNamed fun s _ => s.frame_of_pins)
  | setSlavePin slave name v =>
    exact activeEntries_of_frames_eq (map_putNamed fun s _ => s.frame_of_pins)
  | alter m => rfl

/-- What a run that did not break leaves active can be counted. -/
theorem fits_of_run? (h : (start name m).run? registry ops = some st) :
    ∀ e ∈ st.bus.activeEntries, e.Fits := by
  induction ops using List.reverseRecOn generalizing st with
  | nil =>
    cases h
    intro e he
    cases he
  | append_singleton ops op ih =>
    rw [run?_append_singleton] at h
    obtain ⟨st₀, hst₀, h⟩ := Option.bind_eq_some_iff.1 h
    by_cases hop : op = .configure
    · subst hop
      obtain ⟨x, hx, rfl⟩ := Option.map_eq_some_iff.1 h
      exact fits_of_configure? hx
    · obtain rfl := (yields_perform st₀ op).eq st h
      rw [activeEntries_perform st₀ hop]
      exact ih hst₀

/-- In a run with exact numbers all that active slaves have to count can be counted if the bits of
their entries can. -/
theorem within_of_run (ht : ∀ t ∈ registry.types, t.LinesFit)
    (h : ∀ e ∈ ((start name m).run registry ops).bus.activeEntries, e.Fits) :
    ∀ s ∈ ((start name m).run registry ops).bus.slaves, s.Within := by
  intro s hs rig hrig
  obtain ⟨n, hn⟩ := List.mem_iff_getElem?.1 hs
  have hread := readable_of_run hn hrig
  have hknown := ((valid_start registry name m).run ops).known s hs
  have hactive : s.isActive = true := by
    rw [Slave.isActive, hrig]
    rfl
  refine Rig.within (hread.sound rig hrig).1 hread.held (ht _ hknown) fun e he => h e ?_
  exact List.mem_flatMap.2 ⟨s, List.mem_filter.2 ⟨hs, hactive⟩, he⟩

/-- After a run that did not break no cycle does. -/
theorem within_of_run? (ht : ∀ t ∈ registry.types, t.LinesFit)
    (h : (start name m).run? registry ops = some st) : ∀ s ∈ st.bus.slaves, s.Within := by
  have hfits := fits_of_run? h
  obtain rfl := eq_run_of_run? h
  exact within_of_run ht hfits

/-- With a modest master a run does not break. -/
theorem run?_eq (hμ : Master.Modest μ) (ht : ∀ t ∈ registry.types, t.LinesFit) (name : String)
    (m : μ) (ops : List (Operation μ)) :
    (start name m).run? registry ops = some ((start name m).run registry ops) := by
  induction ops using List.reverseRecOn with
  | nil => rfl
  | append_singleton ops op ih =>
    have hvalid := (valid_start registry name m).run ops
    have hwithin := within_of_run ht (fits_of_modest hμ hvalid.sound)
    rw [run?_append_singleton, ih, Option.bind_some, run_append_singleton]
    exact (yields_perform _ op).safe ⟨hμ, hwithin⟩

theorem run?_run (hμ : Master.Modest μ) (ht : ∀ t ∈ registry.types, t.LinesFit) (name : String)
    (m : μ) (before after : List (Operation μ)) :
    ((start name m).run registry before).run? registry after =
      some (((start name m).run registry before).run registry after) := by
  have hwhole := run?_eq hμ ht name m (before ++ after)
  rwa [run?_append, run?_eq hμ ht name m before, Option.bind_some, run_append] at hwhole

end Session

section Run

variable {registry : Registry} {name : String} {m : μ} {ops : List (Operation μ)} {st : Session μ}

theorem bundled_linesFit : ∀ t ∈ Registry.bundled.types, t.LinesFit :=
  fun _ ht => Registry.bundled_bundled.linesFit ht

/-- A bench with an image that has room for all entries of a drive. -/
def bench : Bench := ⟨List.replicate 1100 0⟩

/-- A stepper drive on the bench is configured and read, and two of its pins are set. -/
def benchOperations : List (Operation Bench) :=
  [.addSlave { name := "a", position := 0, typeName := "EM3E-556E" }, .configure, .read,
    .setPin "m0.a.srv-cia-controlword" (.u32 15), .setPin "m0.a.srv-dout-2" (.bit true)]

theorem run?_bench : (Session.start "m0" bench).run? Registry.bundled benchOperations =
    some ((Session.start "m0" bench).run Registry.bundled benchOperations) :=
  Session.run?_eq Bench.modest bundled_linesFit _ _ _

theorem configured_bench : ∃ n,
    ((Session.start "m0" bench).run Registry.bundled benchOperations).configured? = some (.ok n) :=
  exists_ok_of_any (by decide +kernel)

/-- In every state of a run in words the entries of all active slaves are apart unless the latest
configuration has failed: a failed one leaves the slaves active whose entries share bits. -/
theorem apart_of_run?_iff (hrun : (Session.start name m).run? registry ops = some st) :
    st.bus.activeEntries.Pairwise Registration.Apart ↔
      ∀ e, st.configured? ≠ some (.error e) := by
  obtain rfl := Session.eq_run_of_run? hrun
  exact apart_run_iff registry name m ops

/-- The entries of the drive are apart. -/
theorem apart_of_run?_bench :
    ∃ st, (Session.start "m0" bench).run? Registry.bundled benchOperations = some st ∧
      st.bus.activeEntries.length = 8 ∧ st.bus.activeEntries.Pairwise Registration.Apart := by
  obtain ⟨n, hok⟩ := configured_bench
  refine ⟨_, run?_bench, by decide +kernel, (apart_of_run?_iff run?_bench).2 fun e he => ?_⟩
  cases hok.symm.trans he

/-- Two drives are given the same offsets, and the configuration that activates them fails. -/
theorem overlap_of_shared_offsets_run? : ∃ st,
    (Session.start "m0" (⟨[]⟩ : Bench)).run? Registry.bundled
        [.addSlave { name := "a", position := 0, typeName := "EM3E-556E" },
          .addSlave { name := "b", position := 1, typeName := "EM3E-556E" }, .configure] = some st ∧
      ¬ st.bus.activeEntries.Pairwise Registration.Apart :=
  ⟨_, Session.run?_eq Bench.modest bundled_linesFit "m0" ⟨[]⟩ _, overlap_of_shared_offsets⟩

/-- In every run of a bus with bundled devices whose latest configuration succeeded, the output
half of a cycle comes to its end. It puts the pins into the fields that operational slaves drive,
and changes nothing else, whatever the image is. -/
theorem exists_written_of_run (hμ : Master.Orderly μ) (hr : registry.Bundled)
    (hrun : (Session.start name m).run? registry ops = some st)
    (hc : ∃ n, st.configured? = some (.ok n)) :
    ∃ b, st.bus.write?.run.value = some b ∧ Written st.bus b := by
  have hwithin := Session.within_of_run? (fun t ht => hr.linesFit ht) hrun
  obtain rfl := Session.eq_run_of_run? hrun
  exact ⟨_, (yields_write _).safe hwithin, written_of_run hμ hr name m ops hc⟩

/-- The drive is operational when its outputs are written. -/
theorem exists_written_bench :
    ∃ st, (Session.start "m0" bench).run? Registry.bundled benchOperations = some st ∧
      (∃ n, st.configured? = some (.ok n)) ∧ st.bus.slaves.map (·.isOperational) = [true] ∧
        ∃ b, st.bus.write?.run.value = some b ∧ Written st.bus b := by
  refine ⟨_, run?_bench, configured_bench, by decide +kernel, ?_⟩
  exact exists_written_of_run Bench.orderly Registry.bundled_bundled run?_bench configured_bench

/-- In every state of a run the input half of a cycle shows the process image in the pins of the
active slaves that it finds operational, without a loss, and leaves all the rest as it is. It comes
to its end, also with a master whose calls are traced, if no device has more lines than bits for
them. -/
theorem exists_readBy_of_run (hμ : Master.Discreet μ)
    (hrun : (Session.start name m).run? registry ops = some st) :
    (∀ b, st.bus.read? = some b → ReadBy st.bus b) ∧
      ((∀ t ∈ registry.types, t.LinesFit) → ∃ b, st.bus.read? = some b) ∧
        Yields (∀ t ∈ registry.types, t.LinesFit) st.bus.traced.read? st.bus.traced.read := by
  have hwithin (ht : ∀ t ∈ registry.types, t.LinesFit) := Session.within_of_run? ht hrun
  obtain rfl := Session.eq_run_of_run? hrun
  refine ⟨fun b hb => ?_, fun ht => ⟨_, (yields_read _).safe (hwithin ht)⟩,
    (yields_read _).mono hwithin⟩
  obtain rfl := (yields_read _).eq b hb
  exact readBy_of_run hμ registry name m ops

/-- A stepper drive on the bench is configured, and its image is filled. -/
def litOperations : List (Operation Bench) :=
  [.addSlave { name := "a", position := 0, typeName := "EM3E-556E" }, .configure,
    .alter ⟨List.replicate 1100 0x85⟩]

/-- The input half finds the drive operational, and changes its pins. -/
theorem exists_readBy_bench :
    ∃ st b, (Session.start "m0" bench).run? Registry.bundled litOperations = some st ∧
      st.bus.slaves.map (·.isActive) = [true] ∧ st.bus.read? = some b ∧ ReadBy st.bus b ∧
        b.slaves.map (·.isOperational) = [true] ∧
          b.pin? "m0.a.srv-cia-statusword" = some (.u32 0x8585) := by
  have hrun := Session.run?_eq Bench.modest bundled_linesFit "m0" bench litOperations
  obtain ⟨hread, hends, -⟩ := exists_readBy_of_run Bench.discreet hrun
  obtain ⟨b, hb⟩ := hends bundled_linesFit
  have hby := hread b hb
  obtain rfl := (yields_read _).eq b hb
  exact ⟨_, _, hrun, by decide +kernel, hb, hby, by decide +kernel, by decide +kernel⟩

end Run

section Replaced

variable {registry : Registry} {name : String} {m : Traced μ}
  {before after : List (Operation (Traced μ))} {st st₁ st' : Session (Traced μ)} {n k : Nat}
  {s : Slave} {c : Axis.Channel} {f : Feature} {d : DriveObject}

/-- From a configuration that succeeded to the next one, every output half of a cycle comes to its
end, and puts zero into the field of an output object as long as the host leaves its pin alone,
whatever was sent to the object in the configuration. -/
theorem exists_replaces_of_run (hμ : Master.Orderly μ) (hr : registry.Bundled)
    (hbefore : (Session.start name m).run? registry before = some st)
    (hconfigure : st.perform? registry .configure = some st₁)
    (hrun : st₁.run? registry after = some st') (hs : st₁.bus.slaves[n]? = some s)
    (hc : s.channels[k]? = some c) (hd : (f, d) ∈ c.enabled.objects .output)
    (hf : f ∉ s.type.packed) (hafter : .configure ∉ after)
    (hkeeps : st₁.HostKeeps registry n (s.pinName c d.pinName) after)
    (hok : ∃ count, st'.configured? = some (.ok count)) :
    st'.bus.write?.run.value = some st'.bus.write.value ∧
      ∃ sent F, Replaces st.bus st'.bus n s c d sent F := by
  have hwhole : (Session.start name m).run? registry (before ++ .configure :: after) =
      some st' := by
    rw [Session.run?_append, hbefore, Option.bind_some]
    exact Option.bind_eq_some_iff.2 ⟨st₁, hconfigure, hrun⟩
  have hwithin := Session.within_of_run? (fun t ht => hr.linesFit ht) hwhole
  refine ⟨(yields_write _).safe hwithin, ?_⟩
  obtain rfl := Session.eq_run_of_run? hwhole
  obtain rfl := Session.eq_run_of_run? hbefore
  obtain rfl := (Session.yields_perform _ _).eq st₁ hconfigure
  rw [Session.bus_perform_configure] at hs
  rw [← Session.run_append_singleton] at hkeeps
  exact replaces_of_run hμ hr name m before after hs hc hd hf hafter hkeeps hok

theorem run?_velocitySession :
    (Session.start "m0" ⟨⟨List.replicate 1100 0⟩, []⟩).run? Registry.bundled velocityOperations =
      some velocitySession :=
  Session.run?_eq Bench.modest.traced bundled_linesFit _ _ _

theorem perform?_velocitySession :
    velocitySession.perform? Registry.bundled .configure =
      some (velocitySession.perform Registry.bundled .configure) :=
  (bind_pure _).symm.trans (Session.run?_run Bench.modest.traced bundled_linesFit "m0"
    ⟨⟨List.replicate 1100 0⟩, []⟩ velocityOperations [.configure])

theorem run?_velocityCycle :
    (velocitySession.perform Registry.bundled .configure).run? Registry.bundled [.read] =
      some velocityCycle := by
  have hrun := Session.run?_run Bench.modest.traced bundled_linesFit "m0"
    ⟨⟨List.replicate 1100 0⟩, []⟩ (velocityOperations ++ [.configure]) [.read]
  rwa [Session.run_append_singleton] at hrun

/-- The profile velocity of a drive that was sent another value than zero. -/
theorem exists_replaces_velocity : ∃ (st st₁ st' : Session (Traced Bench)) (s : Slave)
    (c : Axis.Channel) (d : DriveObject) (sent : List MasterCall),
    (Session.start "m0" ⟨⟨List.replicate 1100 0⟩, []⟩).run? Registry.bundled velocityOperations =
        some st ∧
      st.perform? Registry.bundled .configure = some st₁ ∧
      st₁.run? Registry.bundled [.read] = some st' ∧ st₁.bus.slaves[0]? = some s ∧
      s.channels[0]? = some c ∧ (.profileVelocity, d) ∈ c.enabled.objects .output ∧
      .profileVelocity ∉ s.type.packed ∧ .configure ∉ [Operation.read (μ := Traced Bench)] ∧
      st₁.HostKeeps Registry.bundled 0 "m0.a.srv-profile-velocity" [.read] ∧
      (∃ count, st'.configured? = some (.ok count)) ∧
      st'.bus.write?.run.value = some st'.bus.write.value ∧
      st.bus.Replaces st'.bus 0 s c d sent ⟨⟨516, 0⟩, 32⟩ ∧
      st'.bus.Reaches 0 ⟨⟨516, 0⟩, 32⟩ ∧ lastSent? 0 ⟨0x6081, 0⟩ sent = some [0xf4, 1, 0, 0] := by
  obtain ⟨s, c, d, hs, hc, hd, hf, -, hname, -, hF⟩ := exists_velocity
  have hfacts : (velocitySession.perform Registry.bundled .configure).HostKeeps Registry.bundled 0
        "m0.a.srv-profile-velocity" [.read] ∧
      (velocityCycle.configured?.any fun r => r.isOk) = true ∧
      (velocitySession.bus.masterBehind 0).calls = [] ∧
      lastSent? 0 ⟨0x6081, 0⟩ (velocitySession.bus.masterBehind 1).calls =
        some [0xf4, 1, 0, 0] := by decide +kernel
  obtain ⟨hkeeps, hok, hnone, hlast⟩ := hfacts
  have hok := exists_ok_of_any hok
  have hafter : .configure ∉ [Operation.read (μ := Traced Bench)] := by simp
  rw [← Session.bus_perform_configure] at hs
  rw [← hname] at hkeeps
  obtain ⟨hwrite, sent, F, h⟩ := exists_replaces_of_run Bench.orderly Registry.bundled_bundled
    run?_velocitySession perform?_velocitySession run?_velocityCycle hs hc hd hf hafter hkeeps hok
  cases hF.symm.trans h.field
  rw [hname] at hkeeps
  refine ⟨_, _, _, s, c, d, sent, run?_velocitySession, perform?_velocitySession,
    run?_velocityCycle, hs, hc, hd, hf, hafter, hkeeps, hok, hwrite, h, reaches_velocityCycle, ?_⟩
  have hsent := h.calls
  rw [Nat.zero_add, hnone, List.append_nil] at hsent
  rw [← hsent]
  exact hlast

/-- The field gets a value that is not the one that was sent. -/
theorem exists_sent_lost_velocity : ∃ (st st₁ st' : Session (Traced Bench)) (b : Bus (Traced Bench))
    (s : Slave) (c : Axis.Channel) (d : DriveObject) (F : Field) (content : Bytes),
    (Session.start "m0" ⟨⟨List.replicate 1100 0⟩, []⟩).run? Registry.bundled velocityOperations =
        some st ∧
      st.perform? Registry.bundled .configure = some st₁ ∧
      st₁.run? Registry.bundled [.read] = some st' ∧ st'.bus.write?.run.value = some b ∧
      st₁.bus.slaves[0]? = some s ∧ s.channels[0]? = some c ∧
      (.profileVelocity, d) ∈ c.enabled.objects .output ∧ .profileVelocity ∉ s.type.packed ∧
      s.field? ⟨d.index c.base, d.subindex⟩ = some F ∧ st'.bus.Reaches 0 F ∧
      lastSent? s.site.position ⟨d.index c.base, d.subindex⟩ st'.bus.master.calls = some content ∧
      payload F.width (F.raw (Master.image b.master)) ≠ content := by
  obtain ⟨s, c, d, F, content, hs, hlost⟩ := sent_lost_velocity
  obtain ⟨hc, hd, hf, hF, hreaches, hsent, hne⟩ := hlost
  rw [← Session.bus_perform_configure] at hs
  have hwhole : (Session.start "m0" ⟨⟨List.replicate 1100 0⟩, []⟩).run? Registry.bundled
      (velocityOperations ++ [.configure, .read]) = some velocityCycle := by
    rw [Session.run?_append, run?_velocitySession, Option.bind_some]
    exact Option.bind_eq_some_iff.2 ⟨_, perform?_velocitySession, run?_velocityCycle⟩
  have hwrite := (yields_write _).safe (Session.within_of_run? bundled_linesFit hwhole)
  exact ⟨_, _, _, _, s, c, d, F, content, run?_velocitySession, perform?_velocitySession,
    run?_velocityCycle, hwrite, hs, hc, hd, hf, hF, hreaches, hsent, hne⟩

end Replaced

end Bus

end ServoBus
