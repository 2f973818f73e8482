import ServoBus.Proofs.Bus.Rests
import ServoBus.Proofs.Slave.Seeds

/-!
# What pins of services start with

A configuration gives the pins of services the values that were sent to their objects during it,
and zero where nothing was sent. As the writers start from the same values, nothing is written
back: until the next configuration no cycle polls or writes the request of a service whose pin
the host leaves alone.
-/

namespace ServoBus.Bus

variable {μ : Type}

/-- Where a service is: the numbers of its slave, of its channel, and of its object among those
of the channel that are written on change. -/
structure ServicePlace where
  slave : Nat
  channel : Nat
  number : Nat
deriving DecidableEq, Repr

def service? (b : Bus μ) (p : ServicePlace) : Option Axis.Served :=
  b.slaves[p.slave]?.bind (·.service? p.channel p.number)

theorem service?_eq_some_iff {b : Bus μ} {p : ServicePlace} {x : Axis.Served} :
    b.service? p = some x ↔
      ∃ s, b.slaves[p.slave]? = some s ∧ s.service? p.channel p.number = some x :=
  Option.bind_eq_some_iff

/-- A call polls or writes none but requests of services in other places. -/
def Passes (b : Bus μ) (p : ServicePlace) (call : MasterCall) : Prop :=
  ∀ r, call.request? = some r → ∃ q x, q ≠ p ∧ b.service? q = some x ∧ x.writer.request = r

variable [Master μ]

/-- The master in the configuration of a bus when this many slaves have been activated. -/
def masterBehind (b : Bus μ) (n : Nat) : μ := (activateAll (b.slaves.take n) b.master).value.2

theorem activateAll_take_succ {slaves : List Slave} {m : μ} {n : Nat} {s : Slave}
    (hs : slaves[n]? = some s) :
    (activateAll (slaves.take (n + 1)) m).value.2 =
      (s.activate (activateAll (slaves.take n) m).value.2).value.2.2 := by
  induction slaves generalizing m n with
  | nil => cases hs
  | cons q rest ih =>
    cases n with
    | zero =>
      cases hs
      simp [activateAll]
    | succ n =>
      simp only [List.take_succ_cons, activateAll, Logged.value_bind, Logged.value_pure]
      exact ih hs

theorem masterBehind_succ {b : Bus μ} {n : Nat} {s : Slave} (hs : b.slaves[n]? = some s) :
    b.masterBehind (n + 1) = (s.activate (b.masterBehind n)).value.2.2 :=
  activateAll_take_succ hs

/-- What a service starts with when a bus is configured: the calls between the activation of the
slaves before its own and that of its own say what its object was sent. -/
structure SeededBy (b : Bus (Traced μ)) (p : ServicePlace) (s : Slave) (c : Axis.Channel)
    (d : DriveObject) (sent : List MasterCall) (x : Axis.Served) (v : Pin.Value) : Prop where
  calls : (b.masterBehind (p.slave + 1)).calls = sent ++ (b.masterBehind p.slave).calls
  service : b.configured.service? p = some x
  value : b.configured.slavePin? p.slave (s.pinName c d.pinName) = some v
  last : ∀ content,
    lastSent? s.site.position (Axis.serviceAddress p.channel d) sent = some content →
      payload d.format.width v.raw = content
  unsent : lastSent? s.site.position (Axis.serviceAddress p.channel d) sent = none → v.raw = 0

/-- A service whose pin has this value, and about which a cycle calls no master. -/
structure Quiet (b : Bus (Traced μ)) (p : ServicePlace) (x : Axis.Served) (name : String)
    (v : Pin.Value) : Prop where
  service : b.service? p = some x
  value : b.slavePin? p.slave name = some v
  /-- With whatever master its turn comes, it makes no call and stays as it is. -/
  turn : ∀ s, b.slaves[p.slave]? = some s → ∀ (ν : Type) [Master ν] (m : ν),
    x.writer.write (s.pins.raw x.pin) m = pure (x.writer, m)
  read : b.master.Adds (fun call => call.request? = none) b.read.master
  write : b.master.Adds (b.Passes p) b.write.value.master

section Seeds

variable {p : ServicePlace} {s : Slave} {x : Axis.Served} {name : String} {v : Pin.Value}

/-- Requests are polled and written for services that have something to do. -/
theorem quiet_of_rests {b : Bus (Traced μ)} (hs : b.slaves[p.slave]? = some s)
    (hn : s.pins.names.Nodup) (h : s.Rests p.channel p.number x name v) : b.Quiet p x name v where
  service := service?_eq_some_iff.2 ⟨s, hs, h.service⟩
  value := Option.bind_eq_some_iff.2 ⟨s, hs, h.value?_eq hn⟩
  turn q hq ν _ m := by
    cases hs.symm.trans hq
    exact h.settled.write m
  read := by
    refine ⟨_, calls_readAll b.slaves b.master, fun call hcall => ?_⟩
    obtain ⟨q, -, rfl⟩ := List.mem_map.1 (List.mem_reverse.1 hcall)
    rfl
  write := by
    refine (adds_writeAll b.slaves b.master).imp fun call hcall r hr => ?_
    obtain ⟨s', hs', -, x', hx', hbusy, hrequest⟩ := hcall r hr
    obtain ⟨n, hn⟩ := List.mem_iff_getElem?.1 hs'
    obtain ⟨k, j, hservice⟩ := Slave.exists_service? hx'
    refine ⟨⟨n, k, j⟩, x', ?_, service?_eq_some_iff.2 ⟨s', hn, hservice⟩, hrequest⟩
    rintro rfl
    cases hs.symm.trans hn
    cases h.service.symm.trans hservice
    exact hbusy h.settled

/-- After a configuration every service has its pin, and both start from what was sent. -/
theorem exists_seeded {b : Bus (Traced μ)} {c : Axis.Channel} {f : Feature} {d : DriveObject}
    (hs : b.configured.slaves[p.slave]? = some s) (hc : s.channels[p.channel]? = some c)
    (hd : (c.enabled.objects .service)[p.number]? = some (f, d)) :
    ∃ sent x v, b.SeededBy p s c d sent x v ∧
      s.Rests p.channel p.number x (s.pinName c d.pinName) v := by
  obtain ⟨rig, hrig, -⟩ := Slave.mem_channels.1 (List.mem_of_getElem? hc)
  have hk : rig.channels[p.channel]? = some c := by
    rw [Slave.channels, hrig] at hc
    exact hc
  obtain ⟨t, ht, hact⟩ := getElem?_activateAll hs
  obtain ⟨sent, hcalls, hstarts⟩ := Slave.seeds_of_activate hact hrig
  obtain ⟨x, hx, hstart⟩ := exists_left_of_getElem? (hstarts p.channel c hk).flip hd
  have hservice : s.service? p.channel p.number = some x :=
    Slave.service?_eq_some_iff.2 ⟨c, hc, hx⟩
  have hserves := (of_configured hs hrig).1.services p.channel c hk
  obtain ⟨y, hy, hhas⟩ := exists_left_of_getElem? hserves.flip hd
  rw [List.getElem?_map, hx, Option.map_some, Option.some_inj] at hy
  subst hy
  obtain ⟨⟨name, direction, v⟩, hpin, hshape⟩ := PinTable.exists_pin?_of_has hhas
  simp only [Pin.shape, Axis.pinShape, Pin.Shape.mk.injEq] at hshape
  obtain ⟨rfl, rfl, -⟩ := hshape
  have hraw : s.pins.raw x.pin = v.raw := PinTable.raw_of_pin? hpin
  have hrests : s.Rests p.channel p.number x (s.pinName c d.pinName) v :=
    ⟨hservice, hpin, hstart.last.trans hraw, hstart.phase⟩
  have hnames := (of_mem_activateAll (List.mem_of_getElem? hs)).1 rig hrig
  refine ⟨sent, x, v, ?_, hrests⟩
  constructor
  case calls => exact (congrArg Traced.calls (masterBehind_succ ht)).trans hcalls
  case service => exact service?_eq_some_iff.2 ⟨s, hs, hservice⟩
  case value => exact Option.bind_eq_some_iff.2 ⟨s, hs, hrests.value?_eq hnames.1.names⟩
  case last =>
    rw [← hraw]
    exact hstart.sent
  case unsent =>
    rw [← hraw]
    exact hstart.unsent

/-- In every configuration of a run the pin of a service gets what was sent to the object last, or
zero, and from then on until the next configuration no cycle polls or writes the request of the
service as long as the host leaves the pin alone. -/
theorem seeded_of_run (registry : Registry) (start : String) (m : Traced μ)
    (before : List (Operation (Traced μ))) {c : Axis.Channel} {f : Feature} {d : DriveObject}
    (hs : ((Session.start start m).run registry before).bus.configured.slaves[p.slave]? = some s)
    (hc : s.channels[p.channel]? = some c)
    (hd : (c.enabled.objects .service)[p.number]? = some (f, d)) :
    ∃ sent x v, ((Session.start start m).run registry before).bus.SeededBy p s c d sent x v ∧
      ∀ after, .configure ∉ after →
        ((Session.start start m).run registry (before ++ [.configure])).HostKeeps registry p.slave
            (s.pinName c d.pinName) after →
          ((Session.start start m).run registry (before ++ .configure :: after)).bus.Quiet p x
            (s.pinName c d.pinName) v := by
  obtain ⟨sent, x, v, hseeded, hrests⟩ := exists_seeded hs hc hd
  refine ⟨sent, x, v, hseeded, fun after hafter hkeeps => ?_⟩
  rw [← @Session.bus_perform_configure (Traced μ) _ registry,
    ← Session.run_append_singleton] at hs
  obtain ⟨s', hs', hrests'⟩ := Session.rests_run hafter hkeeps hs hrests
  rw [List.append_assoc, List.singleton_append] at hs'
  obtain ⟨rig, hrig⟩ := Slave.exists_rig_of_service? hrests'.service
  have hvalid := (Session.valid_start registry start m).run (before ++ .configure :: after)
  have hnames := (hvalid.sound s' (List.mem_of_getElem? hs') rig hrig).1.names
  exact quiet_of_rests hs' hnames hrests'

end Seeds

/-- A stepper drive with two objects that are written on change, of which one is sent a value that
it has no room for. -/
def tuneOperations : List (Operation (Traced Bench)) :=
  [.addSlave { name := "a", position := 0, typeName := "EM3E-556E",
               settings := [("enableHomeMethod", "true"), ("enableProfileAccel", "true"),
                 ("homeMethod", "300")] }]

/-- Cycles in which the host sets another pin, and the master has another image. -/
def cycleOperations : List (Operation (Traced Bench)) :=
  [.read, .write, .setPin "m0.a.srv-cia-controlword" (.u32 15),
    .alter ⟨⟨[0x85, 0x85]⟩, []⟩, .read, .write]

def tuneSession : Session (Traced Bench) :=
  (Session.start "m0" ⟨⟨[]⟩, []⟩).run Registry.bundled tuneOperations

/-- The byte that was sent is the low one of the value in the pin, and no cycle sends it again. -/
theorem seeded_tune : ∃ (s : Slave) (c : Axis.Channel) (d : DriveObject),
    tuneSession.bus.configured.slaves[0]? = some s ∧ s.channels[0]? = some c ∧
      (c.enabled.objects .service)[0]? = some (.homeMethod, d) ∧ .configure ∉ cycleOperations ∧
      (tuneSession.perform Registry.bundled .configure).HostKeeps Registry.bundled 0
        "m0.a.srv-home-method" cycleOperations ∧
      ∃ sent x v, tuneSession.bus.SeededBy ⟨0, 0, 0⟩ s c d sent x v ∧
        lastSent? 0 ⟨0x6098, 0⟩ sent = some [44] ∧ v = .s32 300 ∧
        (tuneSession.run Registry.bundled (.configure :: cycleOperations)).bus.Quiet ⟨0, 0, 0⟩ x
          "m0.a.srv-home-method" v := by
  have hfacts : (tuneSession.bus.configured.slaves[0]?.bind fun s => s.channels[0]?.bind fun c =>
      (c.enabled.objects .service)[0]?.map fun q => (q.1, s.pinName c q.2.pinName)) =
        some (.homeMethod, "m0.a.srv-home-method") ∧
      (tuneSession.bus.masterBehind 0).calls = [] ∧
      lastSent? 0 ⟨0x6098, 0⟩ (tuneSession.bus.masterBehind 1).calls = some [44] ∧
      tuneSession.bus.configured.slavePin? 0 "m0.a.srv-home-method" = some (.s32 300) ∧
      (tuneSession.perform Registry.bundled .configure).HostKeeps Registry.bundled 0
        "m0.a.srv-home-method" cycleOperations := by decide +kernel
  obtain ⟨hplace, hnone, hlast, hvalue, hkeeps⟩ := hfacts
  obtain ⟨s, hs, hplace⟩ := Option.bind_eq_some_iff.1 hplace
  obtain ⟨c, hc, hplace⟩ := Option.bind_eq_some_iff.1 hplace
  obtain ⟨⟨f, d⟩, hd, hplace⟩ := Option.map_eq_some_iff.1 hplace
  obtain ⟨rfl, hname⟩ := Prod.mk.inj hplace
  have hafter : .configure ∉ cycleOperations := by simp [cycleOperations]
  have hseeds := @seeded_of_run Bench _ ⟨0, 0, 0⟩ s Registry.bundled "m0" ⟨⟨[]⟩, []⟩
    tuneOperations c .homeMethod d
  rw [← tuneSession] at hseeds
  obtain ⟨sent, x, v, hseeded, hquiet⟩ := hseeds hs hc hd
  refine ⟨s, c, d, hs, hc, hd, hafter, hkeeps, sent, x, v, hseeded, ?_, ?_, ?_⟩
  · have hcalls := hseeded.calls
    rw [hnone, List.append_nil] at hcalls
    rw [← hcalls]
    exact hlast
  · have hv := hseeded.value
    rw [hname] at hv
    exact Option.some_inj.1 (hv.symm.trans hvalue)
  · rw [hname] at hquiet
    have hrest := hquiet cycleOperations hafter
    rw [Session.run_append_singleton, Session.run_append, ← tuneSession] at hrest
    exact hrest hkeeps

end ServoBus.Bus
