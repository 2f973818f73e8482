import ServoBus.Proofs.Device.Answers
import ServoBus.Proofs.Slave.Places

/-!
# Activations depend on the answers of the master alone

The calls of an activation are those that it makes with a traced master. Another master that
answers these calls alike gets the same calls, and no difference is seen between the slaves
then, whatever was done with either of them before.

Whether entries overlap depends on their places, so an activation is cut in two: all its calls
come first (`Slave.settle`), and then the places are compared.
-/

namespace ServoBus

open Setup (Agrees)

variable {μ ν : Type} [Master μ] [Master ν] {F : Focus}

theorem Registrations.value_locateFrom_cons (device : String) (r : Registration)
    (rs : List Registration) (m : μ) :
    (locateFrom device (r :: rs) m).value =
      match Master.locateEntry r.slave r.address m with
      | (.error e, m) => (r :: rs, .error e, m)
      | (.ok o, m) =>
        (locateFrom device rs m).value.map ({ r with offset? := some o } :: ·) id := by
  rw [locateFrom]
  rcases Master.locateEntry r.slave r.address m with ⟨e | o, m'⟩ <;> rfl

namespace Setup

theorem result_ask (w : Workspace μ) :
    ask.result w =
      (let found := (Registrations.locateFrom w.regs.device w.regs.entries w.master).value
      (found.2.1, { w with regs := { w.regs with entries := found.1 }, master := found.2.2 })) := by
  rw [ask]
  simp only [Action.result_bind, Action.result_get, Action.result_lift, Action.result_set]
  rcases (Registrations.locateFrom w.regs.device w.regs.entries w.master).value with
    ⟨entries, e | u, m⟩ <;> rfl

theorem result_locate (w : Workspace μ) :
    locate.result w =
      ((ask.result w).1.bind fun _ => (checkOverlap (ask.result w).2.regs.entries).outcome,
        (ask.result w).2) := by
  rw [result_ask, locate, Action.result_zoom, Registrations.locate]
  simp only [Action.result_bind, Action.result_get, Action.result_lift, Action.result_set]
  rcases (Registrations.locateFrom w.regs.device w.regs.entries w.master).value with
    ⟨entries, e | u, m⟩ <;> rfl

/-- The places are compared behind the last call for one of them. -/
theorem result_locate_eq (w : Workspace μ) :
    locate.result w = (do
      ask
      let w ← get
      Action.ofChecked (checkOverlap w.regs.entries)).result w := by
  rw [result_locate, Action.result_bind]
  rcases ask.result w with ⟨e | u, w'⟩ <;> rfl

/-- The places that are answered depend on what the entries are, and not on where they were. -/
theorem follows_locateFrom (device device' : String) {rs rs' : List Registration}
    (hrs : rs'.map (·.seen F) = rs.map (·.seen F)) (t : Traced μ) (n : ν) :
    ∃ calls, (Registrations.locateFrom device rs t).value.2.2 = Master.behind calls t ∧
      (∀ call ∈ calls, ∃ r ∈ rs, call = .locateEntry r.slave r.address) ∧
      (Master.Alike F calls t n →
        (Registrations.locateFrom device' rs' n).value.1.map (·.seen F) =
            (Registrations.locateFrom device rs t).value.1.map (·.seen F) ∧
          (Registrations.locateFrom device' rs' n).value.2.1 =
            (Registrations.locateFrom device rs t).value.2.1 ∧
          (Registrations.locateFrom device' rs' n).value.2.2 = Master.behind calls n) := by
  induction rs generalizing rs' t n with
  | nil =>
    obtain rfl := List.map_eq_nil_iff.1 hrs
    exact ⟨[], rfl, List.forall_mem_nil _, fun _ => ⟨rfl, rfl, rfl⟩⟩
  | cons r rs ih =>
    obtain ⟨r', rs', rfl, hr, hrs⟩ := List.map_eq_cons_iff.1 hrs
    obtain ⟨hslave, haddress, hwidth, -⟩ := Registration.mk.inj hr
    let call : MasterCall := .locateEntry r.slave r.address
    rw [Registrations.value_locateFrom_cons, Registrations.value_locateFrom_cons, hslave, haddress]
    rcases ht : Master.locateEntry r.slave r.address t with ⟨a, t'⟩
    rcases hn : Master.locateEntry r.slave r.address n with ⟨a', n'⟩
    have hstep : (call.perform t).2 = t' := congrArg Prod.snd ht
    have hstep' : (call.perform n).2 = n' := congrArg Prod.snd hn
    have halike (calls : List MasterCall) : Master.Alike F (call :: calls) t n ↔
        a'.map F.place = a.map F.place ∧ Master.Alike F calls t' n' := by
      rw [Master.alike_cons_iff, MasterCall.perform, MasterCall.perform, ht, hn]
      exact and_congr_left fun _ => ⟨Answer.place.inj, congrArg Answer.place⟩
    cases a with
    | error e =>
      refine ⟨[call], hstep.symm, by simp [call], fun h => ?_⟩
      rcases outcome_cases ((halike []).1 h).1 with ⟨e', he, rfl⟩ | ⟨o, o', he, -, -⟩
      · cases he
        refine ⟨?_, rfl, hstep'.symm⟩
        rw [List.map_cons, List.map_cons, hr, hrs]
      · cases he
    | ok o =>
      obtain ⟨calls, hcalls, hplaces, hfollows⟩ := ih hrs t' n'
      refine ⟨call :: calls, ?_, ?_, fun h => ?_⟩
      · rw [Master.behind_cons, hstep]
        exact hcalls
      · intro c hc
        rcases List.mem_cons.1 hc with rfl | hc
        · exact ⟨r, List.mem_cons_self, rfl⟩
        · obtain ⟨q, hq, rfl⟩ := hplaces c hc
          exact ⟨q, List.mem_cons_of_mem _ hq, rfl⟩
      · obtain ⟨hplace, hrest⟩ := (halike calls).1 h
        rcases outcome_cases hplace with ⟨e', he, -⟩ | ⟨o₁, o', he, rfl, hplace⟩
        · cases he
        cases he
        obtain ⟨hentries, hresult, hmaster'⟩ := hfollows hrest
        refine ⟨?_, hresult, ?_⟩
        · refine congrArg₂ List.cons ?_ hentries
          simp only [Registration.seen, Option.map_some, hwidth, hplace]
        · rw [Master.behind_cons, hstep']
          exact hmaster'

/-- Which entries there are decides about the calls, so nothing is said about these here. -/
theorem agrees_ask :
    Agrees (fun _ => True) F id (ask : Setup (Traced μ) Unit) (ask : Setup ν Unit) where
  talks w := by
    obtain ⟨calls, hcalls, -⟩ :=
      follows_locateFrom (F := F) w.regs.device w.regs.device rfl w.master w.master
    exact ⟨calls, fun _ _ => trivial, by rw [result_ask]; exact hcalls⟩
  follows := by
    intro w v calls hwv hcalls halike
    rw [result_ask] at hcalls ⊢
    rw [result_ask]
    simp only [seen, Prod.mk.injEq] at hwv ⊢
    obtain ⟨hsyncs, hregs, hpins⟩ := hwv
    obtain ⟨hdevice, hcapacity, hentries⟩ := Registrations.mk.inj hregs
    obtain ⟨calls', hcalls', -, hfollows⟩ :=
      follows_locateFrom w.regs.device v.regs.device hentries w.master v.master
    obtain rfl : calls = calls' := Master.eq_of_behind_eq (hcalls.symm.trans hcalls')
    obtain ⟨hentries', hresult, hmaster⟩ := hfollows halike
    refine ⟨by rw [hresult], ⟨hsyncs, ?_, hpins⟩, hmaster⟩
    simp only [Registrations.seen, Registrations.mk.injEq]
    exact ⟨hdevice, hcapacity, hentries'⟩

theorem agrees_configureSlave (slave : Position) (identity : Identity)
    (managers : List Sync.Manager) :
    Agrees (·.slave? = some slave) F id
      (onMaster (μ := Traced μ) (Master.configureSlave slave identity managers))
      (onMaster (μ := ν) (Master.configureSlave slave identity managers)) := by
  apply agrees_onMaster (.configureSlave slave identity managers) .done
  · exact rfl
  · exact fun _ => rfl
  · exact fun _ => rfl
  · rintro r r' ⟨⟩
    rfl

end Setup

theorem MasterCall.Prepares.slave?_eq {slave : Position} {call : MasterCall}
    (h : call.Prepares slave) : call.slave? = some slave := by
  cases call with
  | upload | download | addConfig | createRequest => exact congrArg some h
  | _ => cases h

namespace Slave

/-- What is seen of a slave. -/
def seen (F : Focus) (s : Slave) : Slave :=
  { s with regs := s.regs.seen F, rig? := s.rig?.map (·.seen F) }

theorem seen_sharp (s : Slave) : s.seen .sharp = s := by
  have hid : (fun rig : Rig => rig.seen .sharp) = id := funext Rig.seen_sharp
  rw [seen, hid, Option.map_id, Registrations.seen_sharp]
  rfl

theorem agrees_prepare (s : Slave) :
    Agrees (·.slave? = some s.site.position) F (Rig.seen F) (s.prepare : Setup (Traced μ) Rig)
      (s.prepare : Setup ν Rig) := by
  have hset := (s.type.agrees_setUp (μ := μ) (ν := ν) (F := F) s.site s.settings).imp
    fun _ => MasterCall.Prepares.slave?_eq
  unfold prepare
  refine hset.bind fun rig rig' hrig => ?_
  have hrest (b : Sync.Builder) : Agrees (μ := μ) (ν := ν) (·.slave? = some s.site.position) F
      (Rig.seen F)
      (do
        let managers ← Action.ofChecked b.finish
        Logged.debug s!"slave {s.device}: {managers.length - 1} sync managers"
        Setup.onMaster (Master.configureSlave s.site.position s.site.identity managers)
        pure rig)
      (do
        let managers ← Action.ofChecked b.finish
        Logged.debug s!"slave {s.device}: {managers.length - 1} sync managers"
        Setup.onMaster (Master.configureSlave s.site.position s.site.identity managers)
        pure rig') := by
    refine (Setup.agrees_ofChecked _).bind_id fun managers => ?_
    refine (Setup.agrees_lift _).bind_id fun _ => ?_
    exact (Setup.agrees_configureSlave _ _ _).bind_id fun _ => Setup.agrees_pure hrig
  exact Setup.agrees_get_bind fun x => hrest x.1

/-- The setup of a slave without the check for entries that overlap. -/
def settle (s : Slave) : Setup μ Rig := do
  let rig ← s.prepare
  Setup.ask
  pure rig

theorem result_setUp (s : Slave) (w : Workspace μ) :
    s.setUp.result w =
      ((s.settle.result w).1.bind fun rig =>
        (checkOverlap (s.settle.result w).2.regs.entries).outcome.map fun _ => rig,
        (s.settle.result w).2) := by
  rw [setUp, settle]
  simp only [Action.result_bind, Action.result_pure]
  rcases s.prepare.result w with ⟨e | rig, w'⟩
  · rfl
  · dsimp only
    rw [Setup.result_locate]
    rcases Setup.ask.result w' with ⟨e | u, w''⟩
    · rfl
    · dsimp only [Except.bind]
      rcases (checkOverlap w''.regs.entries).outcome with e | u <;> rfl

theorem agrees_settle (s : Slave) :
    Agrees (fun _ => True) F (Rig.seen F) (s.settle : Setup (Traced μ) Rig)
      (s.settle : Setup ν Rig) := by
  refine (s.agrees_prepare.imp fun _ _ => trivial).bind fun rig rig' hrig => ?_
  exact Setup.agrees_ask.bind_id fun _ => Setup.agrees_pure hrig

section Activation

/-- Behind its calls an activation looks whether entries overlap, and that is all. -/
theorem value_activate_eq (s : Slave) (m : μ) :
    (s.activate m).value =
      (let w := (s.settle.result (s.start m)).2
      match (s.settle.result (s.start m)).1, (checkOverlap w.regs.entries).outcome with
      | .error e, _ => (.error e, s.cleared, w.master)
      | .ok _, .error e => (.error e, s.cleared, w.master)
      | .ok rig, .ok () =>
        (.ok (), { s with syncs := w.syncs, regs := w.regs, pins := w.pins, rig? := some rig },
          w.master)) := by
  have hsetUp : s.setUp.result ⟨m, s.syncs.cleared, s.regs.cleared, {}⟩ = _ :=
    s.result_setUp (s.start m)
  rw [value_activate, hsetUp]
  rcases s.settle.result (s.start m) with ⟨e | rig, w⟩
  · rfl
  · dsimp only [Except.bind]
    rcases (checkOverlap w.regs.entries).outcome with e | u <;> rfl

theorem master_activate (s : Slave) (m : μ) :
    (s.activate m).value.2.2 = (s.settle.result (s.start m)).2.master := by
  rw [value_activate_eq]
  dsimp only
  split <;> rfl

/-- The activation fails as entries would overlap. -/
def Overlaps (s : Slave) (m : μ) : Prop := ∃ a b, (s.activate m).value.1 = .error (.overlap a b)

/-- The calls of an activation, the earliest first. -/
def calls (s : Slave) (m : μ) : List MasterCall :=
  (s.activate (⟨m, []⟩ : Traced μ)).value.2.2.calls.reverse

/-- Nothing is found to overlap if the activation does not fail for this reason. -/
theorem outcome_checkOverlap_of_not_overlaps {s : Slave} {m : μ} (h : ¬ s.Overlaps m) {rig : Rig}
    {w : Workspace μ} (hw : s.settle.result (s.start m) = (.ok rig, w)) :
    (checkOverlap w.regs.entries).outcome = .ok () := by
  have hout := outcome_checkOverlap w.regs.entries
  rcases hover : overlapping? w.regs.entries with _ | ⟨a, b⟩
  · rwa [hover] at hout
  · rw [hover] at hout
    refine absurd ⟨a.address, b.address, ?_⟩ h
    rw [value_activate_eq, hw]
    dsimp only
    rw [hout]

/-- The same, as long as the first master is traced. -/
theorem activate_of_alike_traced (s : Slave) {t : Traced μ} {n : ν} {calls : List MasterCall}
    (hF : F = .sharp ∨ ¬ s.Overlaps t ∧ ¬ s.Overlaps n)
    (hcalls : (s.activate t).value.2.2 = Master.behind calls t)
    (h : Master.Alike F calls t n) :
    (s.activate n).value.1 = (s.activate t).value.1 ∧
      (s.activate n).value.2.1.seen F = (s.activate t).value.2.1.seen F ∧
      (s.activate n).value.2.2 = Master.behind calls n := by
  rw [master_activate] at hcalls
  obtain ⟨hout, hseen, hmaster⟩ :=
    s.agrees_settle.follows (w := s.start t) (v := s.start n) rfl hcalls h
  rw [s.value_activate_eq t, s.value_activate_eq n]
  rcases hx : s.settle.result (s.start t) with ⟨r, w⟩
  rcases hy : s.settle.result (s.start n) with ⟨r', v⟩
  rw [hx, hy] at hout hseen
  rw [hy] at hmaster
  simp only [Setup.seen, Prod.mk.injEq] at hseen
  obtain ⟨hsyncs, hregs, hpins⟩ := hseen
  rcases Setup.outcome_cases hout with ⟨e, rfl, rfl⟩ | ⟨rig, rig', rfl, rfl, hrig⟩
  · exact ⟨rfl, rfl, hmaster⟩
  have hcheck : (checkOverlap v.regs.entries).outcome = (checkOverlap w.regs.entries).outcome := by
    rcases hF with rfl | ⟨ht, hn⟩
    · rw [Registrations.seen_sharp, Registrations.seen_sharp] at hregs
      rw [hregs]
    · rw [outcome_checkOverlap_of_not_overlaps ht hx, outcome_checkOverlap_of_not_overlaps hn hy]
  dsimp only
  rw [hcheck]
  rcases (checkOverlap w.regs.entries).outcome with e | u
  · exact ⟨rfl, rfl, hmaster⟩
  · refine ⟨rfl, ?_, hmaster⟩
    simp only [seen, hsyncs, hregs, hpins, hrig, Option.map_some]

theorem calls_eq_of_behind {s : Slave} {m : μ} {calls : List MasterCall}
    (h : (s.settle.result (s.start (⟨m, []⟩ : Traced μ))).2.master =
      Master.behind calls (⟨m, []⟩ : Traced μ)) : s.calls m = calls := by
  rw [Slave.calls, master_activate, h]
  rw [Master.behind_traced, List.append_nil, List.reverse_reverse]

theorem behind_calls (s : Slave) (m : μ) :
    (s.activate (⟨m, []⟩ : Traced μ)).value.2.2 =
      Master.behind (s.calls m) (⟨m, []⟩ : Traced μ) := by
  obtain ⟨calls, -, hcalls⟩ :=
    (s.agrees_settle (μ := μ) (ν := μ) (F := .sharp)).talks (s.start ⟨m, []⟩)
  rw [calls_eq_of_behind hcalls, master_activate]
  exact hcalls

/-- A trace shows the calls, and nothing else comes of it. -/
theorem activate_traced (s : Slave) (t : Traced μ) :
    (s.activate t).value =
      ((s.activate t.master).value.1, (s.activate t.master).value.2.1,
        ⟨(s.activate t.master).value.2.2, (s.calls t.master).reverse ++ t.calls⟩) := by
  have hplain := s.activate_of_alike_traced (F := .sharp) (n := t.master) (.inl rfl)
    (s.behind_calls t.master) (Master.alike_traced_iff.2 (Master.alike_refl _ _))
  have htraced := s.activate_of_alike_traced (F := .sharp) (n := t) (.inl rfl)
    (s.behind_calls t.master)
    (Master.alike_traced_iff.2 (Master.alike_iff_traced.2 (Master.alike_refl _ _)))
  simp only [seen_sharp] at hplain htraced
  rw [Master.behind_traced] at htraced
  refine Prod.ext (htraced.1.trans hplain.1.symm)
    (Prod.ext (htraced.2.1.trans hplain.2.1.symm) ?_)
  rw [htraced.2.2, hplain.2.2]

/-- If another master answers the calls alike, an activation by it makes the same calls, comes to
the same outcome and leaves a slave in which no difference is seen. -/
theorem activate_of_alike {s : Slave} {m : μ} {n : ν} (h : Master.Alike F (s.calls m) m n)
    (hF : F = .sharp ∨ ¬ s.Overlaps m ∧ ¬ s.Overlaps n) :
    s.calls n = s.calls m ∧ (s.activate n).value.1 = (s.activate m).value.1 ∧
      (s.activate n).value.2.1.seen F = (s.activate m).value.2.1.seen F ∧
      (s.activate n).value.2.2 = Master.behind (s.calls m) n := by
  have hm := s.activate_traced (⟨m, []⟩ : Traced μ)
  have hn := s.activate_traced (⟨n, []⟩ : Traced ν)
  have hF' : F = .sharp ∨
      ¬ s.Overlaps (⟨m, []⟩ : Traced μ) ∧ ¬ s.Overlaps (⟨n, []⟩ : Traced ν) := by
    rw [Overlaps, Overlaps, hm, hn]
    exact hF
  obtain ⟨hresult, hslave, hmaster⟩ := s.activate_of_alike_traced hF' (s.behind_calls m)
    (Master.alike_traced_iff.2 (Master.alike_iff_traced.2 h))
  rw [hm, hn] at hresult hslave
  rw [hn, Master.behind_traced, Traced.mk.injEq, List.append_nil, List.append_nil] at hmaster
  exact ⟨List.reverse_inj.1 hmaster.2, hresult, hslave, hmaster.1⟩

end Activation

end Slave

end ServoBus
