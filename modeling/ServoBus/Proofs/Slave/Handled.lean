import ServoBus.Proofs.Device.Faults
import ServoBus.Proofs.Setup.Masked
import ServoBus.Proofs.Slave.Answers

/-!
# Settings that are accepted are handled

A slave is only made if every name in its configuration is declared by its type. All of these
names denote something, and when the slave is set up the setting is applied as just that. So a
setup of a slave does not come upon a parameter or a feature that nobody knows.
-/

namespace ServoBus

variable {μ : Type} [Master μ]

/-- A setting is applied as the one parameter and to the one channel that its name denotes. -/
def DeviceType.Handles (μ : Type) [Master μ] (t : DeviceType) (site : Site) (name : String)
    (p : Param.Setting) : Prop :=
  p.name = name ∧ ∃ q channel, t.Denotes name q channel ∧
    (∀ q' channel', t.Denotes name q' channel' → q' = q ∧ channel' = channel) ∧
    ∀ o, t.apply (μ := μ) site o p = Parameter.apply q site channel o p

theorem DeviceType.Table.handles {t : DeviceType} (table : t.Table) (site : Site)
    {given : String × String} {p : Param.Setting} (h : p.MadeFrom t.declarations given) :
    t.Handles μ site given.1 p := by
  obtain ⟨d, hfind, hid, hname, -⟩ := h
  obtain ⟨hd, hdname⟩ := (Param.find?_eq_some_iff table.nodup_names).1 hfind
  obtain ⟨q, channel, hdenotes, hdid, hchannel⟩ := table.exists_denotes hd
  rw [hdname] at hdenotes
  refine ⟨hname, q, channel, hdenotes, fun q' channel' h' => ?_, fun o => ?_⟩
  · exact table.denotes_inj hdenotes h'
  · exact DeviceType.apply_eq hdenotes.mem hchannel (hid.trans hdid)

namespace Slave

/-- In the order of its configuration, each setting of a slave is handled as what its name denotes.
If the device is set up and this fails for a parameter or a feature that nobody knows, this fault
is what the master has answered to one of the calls. -/
theorem settings_handled {r : Registry} (hr : r.Bundled) {t : DeviceType} (ht : t ∈ r.types)
    {master : String} {c : SlaveConfig} {s : Slave} (hs : (create master c t).outcome = .ok s) :
    List.Forall₂ (fun given p => t.Handles μ s.site given.1 p) c.settings s.settings ∧
      ∀ (m : μ) (e : Fault) (w : Workspace (Traced μ)),
        (s.type.setUp s.site s.settings).result (s.start ⟨m, []⟩) = (.error e, w) →
        e.IsUnknown → ∃ a ∈ Master.answers w.master.calls.reverse m, a.fault? = some e := by
  obtain ⟨site, settings, hread, rfl⟩ := exists_of_outcome_create hs
  obtain ⟨table⟩ := hr.nonempty_table ht
  have hmade := Param.Setting.forall₂_of_outcome_readAll hread
  refine ⟨hmade.imp fun _ _ hp => table.handles site hp, fun m e w h he => ?_⟩
  have hmasked : Action.FailsWith (· ≠ e)
      (t.setUp site settings : Setup (Masked μ e) Rig) := by
    have hknown : Action.FailsWith (Fault.Known (Masked μ e) site.position)
        (t.setUp site settings : Setup (Masked μ e) Rig) := by
      refine DeviceType.failsWith_setUp fun p hp => ?_
      obtain ⟨given, -, hp⟩ := exists_left_of_forall₂ hmade hp
      obtain ⟨-, q, channel, -, -, happly⟩ := table.handles (μ := Masked μ e) site hp
      exact ⟨q, channel, happly⟩
    refine hknown.imp fun e' hgives heq => ?_
    subst heq
    refine Masked.not_gives ?_ (hgives he)
    rintro rfl
    exact he
  obtain ⟨calls, hcalls, a, ha, hfault⟩ := Setup.exists_answer_of_result
    (t.agrees_setUp (F := .sharp) site settings) (fun v' h' => hmasked _ _ v' h' rfl) h
  refine ⟨a, ?_, hfault⟩
  rw [hcalls, Master.behind_traced]
  simpa [Master.answers_traced, start] using ha

/-- The bench never answers with a fault. -/
theorem fault?_of_mem_answers_bench {calls : List MasterCall} {m : Bench} {a : Answer}
    (ha : a ∈ Master.answers calls m) : a.fault? = none := by
  induction calls generalizing m with
  | nil => cases ha
  | cons call calls ih =>
    rcases List.mem_cons.1 ha with rfl | ha
    · cases call <;> rfl
    · exact ih ha

/-- A drive with two axes and settings of all kinds, two of which are about the second axis. -/
def tunedDrive : SlaveConfig :=
  { name := "a", position := 0, typeName := "2CS3E-D507",
    settings := [("ch2homeMethod", "35"), ("controlMode", "openloop"), ("ch2gearRatio", "0/1"),
      ("ch1enableHomeMethod", "true")] }

/-- Each setting of this drive is handled, though a ratio without a numerator is refused. -/
theorem settings_handled_tunedDrive : ∃ t s,
    Registry.bundled.types.find? (·.name == tunedDrive.typeName) = some t ∧
    (create "m0" tunedDrive t).outcome = .ok s ∧
    s.settings.map (·.id) = [0x1089, 0x120, 0x10d9, 0x4120] ∧
    (s.activate (⟨[]⟩ : Bench)).value.1 = .error (.invalidRatio "0/1") ∧
    List.Forall₂ (fun given p => t.Handles Bench s.site given.1 p)
      tunedDrive.settings s.settings ∧
    ∀ (m : Bench) (e : Fault) (w : Workspace (Traced Bench)),
      (s.type.setUp s.site s.settings).result (s.start ⟨m, []⟩) = (.error e, w) →
        ¬ e.IsUnknown := by
  have hrun : ((Registry.bundled.types.find? (·.name == tunedDrive.typeName)).bind fun t =>
      (create "m0" tunedDrive t).outcome.toOption.map fun s =>
        (s.settings.map (·.id), (s.activate (⟨[]⟩ : Bench)).value.1)) =
      some ([0x1089, 0x120, 0x10d9, 0x4120], .error (.invalidRatio "0/1")) := by
    decide +kernel
  obtain ⟨t, ht, hmap⟩ := Option.bind_eq_some_iff.1 hrun
  obtain ⟨s, hs, hend⟩ := Option.map_eq_some_iff.1 hmap
  replace hs := Action.eq_ok_of_toOption hs
  obtain ⟨hids, hfault⟩ := Prod.mk.inj hend
  obtain ⟨hhandled, hknown⟩ :=
    settings_handled (μ := Bench) Registry.bundled_bundled (List.mem_of_find?_eq_some ht) hs
  refine ⟨t, s, ht, hs, hids, hfault, hhandled, fun m e w h he => ?_⟩
  obtain ⟨a, ha, hgiven⟩ := hknown m e w h he
  rw [fault?_of_mem_answers_bench ha] at hgiven
  cases hgiven

end Slave

end ServoBus
