import ServoBus.Proofs.Bus.Run
import ServoBus.Proofs.Bus.Seeds
import ServoBus.Proofs.Slave.Careful

/-!
# Slaves do not disturb each other

All calls of an activation are about one slave. If a master keeps its slaves apart, what it
answers about one of them is not touched by what it was asked about those before it, whether their
activations succeeded or not. A bus that has only some of the slaves activates these as before,
and only the numbers of requests and the places of entries may be others.
-/

namespace ServoBus

variable {μ : Type} [Master μ]

namespace Slave

/-- All calls of an activation are about the slave. -/
theorem slave?_of_mem_calls {s : Slave} {m : μ} {call : MasterCall} (h : call ∈ s.calls m) :
    call.slave? = some s.site.position := by
  obtain ⟨before, hbefore, hcourse⟩ := s.course m
  rcases hcourse with hcalls | ⟨w, managers, places, hcourse⟩
  · rw [hcalls] at h
    exact (hbefore call h).slave?_eq
  rw [hcourse.calls] at h
  rcases List.mem_append.1 h with h | h
  · exact (hbefore call h).slave?_eq
  rcases List.mem_cons.1 h with rfl | h
  · rfl
  obtain ⟨r, hr, rfl⟩ := hcourse.locates call h
  obtain ⟨rig, hset⟩ := hcourse.setUp
  obtain ⟨o, -, hregs⟩ :=
    DeviceType.exists_mapped_of_result_setUp s.syncs.device rfl hset
  have hentries : w.regs.entries = Axis.driveEntries s.site o.active.zipIdx := by
    rw [hregs]
    rfl
  rw [hentries] at hr
  exact congrArg some (Axis.slave_of_mem_driveEntries hr)

theorem master_activate_eq (s : Slave) (m : μ) :
    (s.activate m).value.2.2 = Master.behind (s.calls m) m :=
  (activate_of_alike (F := .sharp) (Master.alike_refl _ m) (.inl rfl)).2.2.2

/-- An activation by one master and one by another differ at most in the places of entries and in
the numbers of requests. -/
structure Undisturbed (s : Slave) (m m' : μ) : Prop where
  result : (s.activate m').value.1 = (s.activate m).value.1
  syncs : (s.activate m').value.2.1.syncs = (s.activate m).value.2.1.syncs
  entries : (s.activate m').value.2.1.regs.wanted = (s.activate m).value.2.1.regs.wanted
  pins : (s.activate m').value.2.1.pins = (s.activate m).value.2.1.pins
  calls : s.calls m' = s.calls m

theorem undisturbed_of_alike {s : Slave} {m m' : μ} (h : Master.Alike .coarse (s.calls m) m m')
    (hm : ¬ s.Overlaps m) (hm' : ¬ s.Overlaps m') : s.Undisturbed m m' := by
  obtain ⟨hcalls, hresult, hslave, -⟩ := activate_of_alike h (.inr ⟨hm, hm'⟩)
  obtain ⟨-, -, -, hsyncs, hregs, hpins, -, -⟩ := Slave.mk.inj hslave
  have hwanted (r : Registrations) : (r.seen .coarse).wanted = r.wanted := by
    rw [Registrations.wanted, Registrations.seen, List.map_map]
    rfl
  refine ⟨hresult, hsyncs, ?_, hpins, hcalls⟩
  rw [← hwanted, hregs, hwanted]

end Slave

namespace Bus

/-- What was asked about a bus of slaves is about one of these. -/
theorem exists_calls_activateAll (slaves : List Slave) (m : μ) :
    ∃ calls, (activateAll slaves m).value.2 = Master.behind calls m ∧
      ∀ call ∈ calls, ∃ s ∈ slaves, call.slave? = some s.site.position := by
  induction slaves generalizing m with
  | nil => exact ⟨[], rfl, List.forall_mem_nil _⟩
  | cons s slaves ih =>
    obtain ⟨calls, hcalls, habout⟩ := ih (s.activate m).value.2.2
    refine ⟨s.calls m ++ calls, ?_, ?_⟩
    · simp only [activateAll, Logged.value_bind, Logged.value_pure]
      rw [hcalls, Master.behind_append, s.master_activate_eq]
    · intro call hcall
      rcases List.mem_append.1 hcall with hcall | hcall
      · exact ⟨s, List.mem_cons_self, Slave.slave?_of_mem_calls hcall⟩
      · obtain ⟨t, ht, hslave⟩ := habout call hcall
        exact ⟨t, List.mem_cons_of_mem _ ht, hslave⟩

/-- A slave at a position of its own is activated by a master that was asked about others only. -/
theorem exists_calls_masterBehind {b : Bus μ} (hpos : (b.slaves.map (·.site.position)).Nodup)
    {n : Nat} {s : Slave} (hs : b.slaves[n]? = some s) :
    ∃ calls, b.masterBehind n = Master.behind calls b.master ∧
      calls.filter (·.concerns s.site.position) = [] := by
  obtain ⟨calls, hcalls, habout⟩ := exists_calls_activateAll (b.slaves.take n) b.master
  refine ⟨calls, hcalls, List.filter_eq_nil_iff.2 fun call hcall => ?_⟩
  obtain ⟨t, ht, hslave⟩ := habout call hcall
  have hne : t.site.position ≠ s.site.position := ne_of_mem_take hpos hs ht
  rw [MasterCall.concerns, hslave]
  simpa using hne

/-- What the activations of slaves come to, one after the other. -/
def activations : List Slave → μ → List (Except Fault Unit × Slave × μ)
  | [], _ => []
  | s :: rest, m => (s.activate m).value :: activations rest (s.activate m).value.2.2

theorem slaves_activateAll (slaves : List Slave) (m : μ) :
    (activateAll slaves m).value.1 = (activations slaves m).map (·.2.1) := by
  induction slaves generalizing m with
  | nil => rfl
  | cons s slaves ih =>
    simp only [activateAll, activations, Logged.value_bind, Logged.value_pure, List.map_cons, ih]

theorem getElem?_activations {slaves : List Slave} {n : Nat} {s : Slave}
    (hs : slaves[n]? = some s) (m : μ) :
    (activations slaves m)[n]? =
      some (s.activate (activateAll (slaves.take n) m).value.2).value := by
  induction slaves generalizing n m with
  | nil => cases hs
  | cons t rest ih =>
    cases n with
    | zero =>
      cases hs
      rfl
    | succ n =>
      rw [activations, List.getElem?_cons_succ, ih hs, List.take_succ_cons]
      simp only [activateAll, Logged.value_bind, Logged.value_pure]

theorem isActive_eq_of_mem_activations {slaves : List Slave} {m : μ}
    {x : Except Fault Unit × Slave × μ} (hx : x ∈ activations slaves m) :
    x.2.1.isActive = x.1.isOk := by
  induction slaves generalizing m with
  | nil => cases hx
  | cons s slaves ih =>
    rcases List.mem_cons.1 hx with rfl | hx
    · exact s.isActive_activate m
    · exact ih hx

theorem activeCount_configured (b : Bus μ) :
    b.configured.activeCount = (activations b.slaves b.master).countP (·.1.isOk) := by
  have hslaves : b.configured.slaves = (activations b.slaves b.master).map (·.2.1) :=
    slaves_activateAll _ _
  rw [activeCount, hslaves, List.countP_map]
  exact List.countP_congr fun x hx => by
    rw [Function.comp_apply, isActive_eq_of_mem_activations hx]

/-- No activation fails as entries overlap. -/
def Disjoint (b : Bus μ) : Prop :=
  ∀ x ∈ activations b.slaves b.master, ∀ a a', x.1 ≠ .error (.overlap a a')

theorem Disjoint.not_overlaps {b : Bus μ} (h : b.Disjoint) {n : Nat} {s : Slave}
    (hs : b.slaves[n]? = some s) : ¬ s.Overlaps (b.masterBehind n) := by
  rintro ⟨a, a', hfault⟩
  exact h _ (List.mem_of_getElem? (getElem?_activations hs b.master)) a a' hfault

/-- Leaving out slaves from a bus, such as those that cannot be activated, makes no difference
for the others, as long as no entries are found to overlap. The number that a configuration gives
is that of the active slaves, and of the activations that succeeded. -/
theorem isolated {b : Bus μ} {slaves : List Slave} (hsub : slaves.Sublist b.slaves)
    (hpos : (b.slaves.map (·.site.position)).Nodup) (hsep : Master.Separate b.master)
    (hdis : b.Disjoint) (hdis' : ({ b with slaves } : Bus μ).Disjoint) :
    (∀ (n n' : Nat) (s : Slave), b.slaves[n]? = some s → slaves[n']? = some s →
      s.Undisturbed (b.masterBehind n) ({ b with slaves }.masterBehind n')) ∧
    (∀ (n : Nat) (s : Slave), b.slaves[n]? = some s →
      b.configured.slaves[n]? = some (s.activate (b.masterBehind n)).value.2.1) ∧
    ∀ k b', configure.result b = (.ok k, b') →
      k = b'.slaves.countP (·.isActive) ∧
        k = (activations b.slaves b.master).countP (·.1.isOk) := by
  refine ⟨?_, ?_, ?_⟩
  · intro n n' s hs hs'
    have hpos' : (slaves.map (·.site.position)).Nodup := hpos.sublist (hsub.map _)
    obtain ⟨calls, hcalls, hnone⟩ := exists_calls_masterBehind hpos hs
    obtain ⟨calls', hcalls', hnone'⟩ :=
      exists_calls_masterBehind (b := { b with slaves }) hpos' hs'
    apply Slave.undisturbed_of_alike _ (hdis.not_overlaps hs) (hdis'.not_overlaps hs')
    rw [hcalls, hcalls']
    exact hsep.alike (hnone.trans hnone'.symm) fun call => Slave.slave?_of_mem_calls
  · intro n s hs
    rw [show b.configured.slaves = (activations b.slaves b.master).map (·.2.1) from
      slaves_activateAll _ _, List.getElem?_map, getElem?_activations hs]
    rfl
  · intro k b' h
    rw [result_configure, Prod.mk.injEq] at h
    obtain ⟨hk, rfl⟩ := h
    have hcount : k = b.configured.activeCount := by
      rcases hcheck : (checkOverlap b.configured.activeEntries).outcome with e | u
      · rw [hcheck] at hk
        cases hk
      · rw [hcheck] at hk
        exact (Except.ok.inj hk).symm
    exact ⟨hcount, hcount.trans b.activeCount_configured⟩

/-- A rack does not forget which slaves are broken. -/
theorem broken_behind (calls : List MasterCall) (m : Rack) :
    (Master.behind calls m).broken = m.broken := by
  induction calls generalizing m with
  | nil => rfl
  | cons call calls ih =>
    rw [Master.behind_cons, ih]
    cases call <;> rfl

theorem separate_rack (m : Rack) : Master.Separate m := by
  intro slave calls calls' call _ _
  have hbroken : (Master.behind calls m).broken = (Master.behind calls' m).broken := by
    rw [broken_behind, broken_behind]
  generalize Master.behind calls m = r at hbroken
  generalize Master.behind calls' m = r' at hbroken
  cases call with
  | configureSlave slave' identity managers =>
    simp only [MasterCall.perform, Master.configureSlave, hbroken, Prod.map_fst]
  | _ => rfl

/-- Three drives on a rack, of which the second one is broken. -/
def rackBus : Bus Rack :=
  ((Session.start "m0" ({ broken := [1] } : Rack)).run Registry.bundled
    [.addSlave { name := "a", position := 0, typeName := "EM3E-556E" },
      .addSlave { name := "b", position := 1, typeName := "2CS3E-D507",
                  settings := [("ch1enableHomeMethod", "true")] },
      .addSlave { name := "c", position := 2, typeName := "EM3E-556E",
                  settings := [("enableHomeMethod", "true")] }]).bus

/-- The rack without the broken drive. -/
def intactBus : Bus Rack := { rackBus with slaves := rackBus.slaves.eraseIdx 1 }

/-- The last drive gets another request when the broken one is left out, and that is all. -/
theorem isolated_rackBus : ∃ s, rackBus.slaves[2]? = some s ∧
    (rackBus.masterBehind 2).requested = 1 ∧ (intactBus.masterBehind 1).requested = 0 ∧
    s.Undisturbed (rackBus.masterBehind 2) (intactBus.masterBehind 1) := by
  have hfacts : rackBus.slaves[2]?.isSome = true ∧ intactBus.slaves[1]? = rackBus.slaves[2]? ∧
      (rackBus.slaves.map (·.site.position)).Nodup ∧
      (activations rackBus.slaves rackBus.master).map (·.1) =
        [.ok (), .error (.master "no such slave"), .ok ()] ∧
      (activations intactBus.slaves intactBus.master).map (·.1) = [.ok (), .ok ()] ∧
      (rackBus.masterBehind 2).requested = 1 ∧ (intactBus.masterBehind 1).requested = 0 := by
    decide +kernel
  obtain ⟨hsome, hsame, hpos, houtcomes, houtcomes', hone, hnone⟩ := hfacts
  obtain ⟨s, hs⟩ := Option.isSome_iff_exists.1 hsome
  have hdis : rackBus.Disjoint := by
    intro x hx a a' hfault
    have hmem := List.mem_map_of_mem (f := (·.1)) hx
    rw [houtcomes, hfault] at hmem
    simp at hmem
  have hdis' : intactBus.Disjoint := by
    intro x hx a a' hfault
    have hmem := List.mem_map_of_mem (f := (·.1)) hx
    rw [houtcomes', hfault] at hmem
    simp at hmem
  exact ⟨s, hs, hone, hnone,
    (isolated (List.eraseIdx_sublist _ _) hpos (separate_rack _) hdis hdis').1 2 1 s hs
      (hsame.trans hs)⟩

end Bus

end ServoBus
