import ServoBus.Proofs.Device.Bundled
import ServoBus.Proofs.Master
import ServoBus.Proofs.Slave.Answers
import ServoBus.Proofs.Slave.History

/-!
# What an activation asks of the master, and when

An activation goes on only while everything succeeds. First the device is set up, then the
master configures the slave, and then it places the entries (`Slave.course`). So the calls of an
activation, even of one that fails somewhere, are a part of these in this order, and a slave
is never placed that was not configured. Whatever failed, nothing of it stays.
-/

namespace ServoBus

variable {μ : Type} [Master μ]

/-- The call that asks for the place of an entry. -/
def Registration.call (r : Registration) : MasterCall := .locateEntry r.slave r.address

def MasterCall.configures : MasterCall → Bool
  | configureSlave .. => true
  | _ => false

/-- If all entries are placed, they were asked for one after the other, and each of them is
where the answer says. -/
theorem Registrations.calls_of_locateFrom {device : String} {rs : List Registration} {m : μ}
    (h : (locateFrom device rs m).value.2.1 = .ok ()) :
    (locateFrom device rs m).value.1.map (·.call) = rs.map (·.call) ∧
      (locateFrom device rs m).value.2.2 = Master.behind (rs.map (·.call)) m ∧
      ∃ offsets : List Offset,
        (locateFrom device rs m).value.1.map (·.offset?) = offsets.map some ∧
        Master.answers (rs.map (·.call)) m = offsets.map fun o => .place (.ok o) := by
  induction rs generalizing m with
  | nil => exact ⟨rfl, rfl, [], rfl, rfl⟩
  | cons r rs ih =>
    rw [value_locateFrom_cons] at h ⊢
    rcases hl : Master.locateEntry r.slave r.address m with ⟨e | o, m'⟩
    · rw [hl] at h
      cases h
    · rw [hl] at h
      have hstep : r.call.perform m = (.place (.ok o), m') := by
        rw [Registration.call, MasterCall.perform, hl]
        rfl
      obtain ⟨hcalls, hmaster, offsets, hoffsets, hanswers⟩ := ih h
      refine ⟨?_, ?_, o :: offsets, ?_, ?_⟩
      · exact congrArg (r.call :: ·) hcalls
      · rw [List.map_cons, Master.behind_cons, hstep]
        exact hmaster
      · exact congrArg (some o :: ·) hoffsets
      · rw [List.map_cons, Master.answers, hstep, hanswers, List.map_cons]

namespace Slave

theorem result_prepare (s : Slave) (w : Workspace μ) :
    s.prepare.result w =
      match (s.type.setUp s.site s.settings).result w with
      | (.error e, w) => (.error e, w)
      | (.ok rig, w) =>
        match w.syncs.finish.outcome with
        | .error e => (.error e, w)
        | .ok managers =>
          let x := Master.configureSlave s.site.position s.site.identity managers w.master
          (x.1.map fun _ => rig, { w with master := x.2 }) := by
  rw [prepare, Action.result_bind]
  rcases (s.type.setUp s.site s.settings).result w with ⟨e | rig, w'⟩
  · rfl
  · simp only [Action.result_bind, Action.result_get, Action.result_ofChecked, Action.result_lift,
      Setup.onMaster, Action.result_zoom, Action.result_ofStep]
    rcases w'.syncs.finish.outcome with e | managers
    · rfl
    · dsimp only
      rcases Master.configureSlave s.site.position s.site.identity managers w'.master with
        ⟨e | u, m⟩ <;> rfl

/-- The call that has the slave configured. -/
def configureCall (s : Slave) (managers : List Sync.Manager) : MasterCall :=
  .configureSlave s.site.position s.site.identity managers

/-- The calls of an activation behind those that set up the device: the slave is configured, and
if this succeeds its entries are placed. -/
structure Course (s : Slave) (m : μ) (before : List MasterCall) (w : Workspace (Traced μ))
    (managers : List Sync.Manager) (places : List MasterCall) : Prop where
  setUp : ∃ rig, (s.type.setUp s.site s.settings).result (s.start ⟨m, []⟩) = (.ok rig, w)
  reached : w.master = Master.behind before ⟨m, []⟩
  finish : w.syncs.finish.outcome = .ok managers
  calls : s.calls m = before ++ s.configureCall managers :: places
  locates : ∀ call ∈ places, ∃ r ∈ w.regs.entries, call = r.call
  accepted : places ≠ [] →
    ((s.configureCall managers).perform (Master.behind before m)).1 = .done (.ok ())

/-- A preparation that fails has made all the calls of the activation. -/
theorem calls_of_result_prepare_error {s : Slave} {m : μ} {calls : List MasterCall} {e : Fault}
    {w : Workspace (Traced μ)}
    (h : s.prepare.result (s.start (⟨m, []⟩ : Traced μ)) = (.error e, w))
    (hcalls : w.master = Master.behind calls ⟨m, []⟩) : s.calls m = calls := by
  apply calls_eq_of_behind
  rw [settle, Action.result_bind, h]
  exact hcalls

/-- Behind a preparation an activation asks for the places of its entries. -/
theorem exists_places_of_result_prepare_ok {s : Slave} {m : μ} {calls : List MasterCall}
    {rig : Rig} {w : Workspace (Traced μ)}
    (h : s.prepare.result (s.start (⟨m, []⟩ : Traced μ)) = (.ok rig, w))
    (hcalls : w.master = Master.behind calls ⟨m, []⟩) :
    ∃ places, s.calls m = calls ++ places ∧
      ∀ call ∈ places, ∃ r ∈ w.regs.entries, call = r.call := by
  obtain ⟨places, hplaces, hlocates, -⟩ :=
    Setup.follows_locateFrom (F := .sharp) w.regs.device w.regs.device rfl w.master w.master
  refine ⟨places, ?_, hlocates⟩
  apply calls_eq_of_behind
  rw [settle, Action.result_bind, h, Master.behind_append, ← hcalls, ← hplaces]
  simp only [Action.result_bind, Setup.result_ask]
  rcases (Registrations.locateFrom w.regs.device w.regs.entries w.master).value with
    ⟨rs, e | u, t⟩ <;> rfl

theorem course (s : Slave) (m : μ) :
    ∃ before : List MasterCall, (∀ call ∈ before, call.Prepares s.site.position) ∧
      (s.calls m = before ∨ ∃ w managers places, s.Course m before w managers places) := by
  obtain ⟨before, hbefore, hreached⟩ :=
    (s.type.agrees_setUp (μ := μ) (ν := μ) (F := .sharp) s.site s.settings).talks
      (s.start ⟨m, []⟩)
  refine ⟨before, hbefore, ?_⟩
  have hprepare := s.result_prepare (s.start (⟨m, []⟩ : Traced μ))
  rcases hset : (s.type.setUp s.site s.settings).result (s.start (⟨m, []⟩ : Traced μ)) with
    ⟨e | rig, w⟩
  · rw [hset] at hreached hprepare
    exact .inl (calls_of_result_prepare_error hprepare hreached)
  rw [hset] at hreached hprepare
  dsimp only at hprepare
  rcases hfinish : w.syncs.finish.outcome with e | managers
  · rw [hfinish] at hprepare
    exact .inl (calls_of_result_prepare_error hprepare hreached)
  right
  replace hreached : w.master = Master.behind before (⟨m, []⟩ : Traced μ) := hreached
  rw [hfinish] at hprepare
  dsimp only at hprepare
  rcases hconf : Master.configureSlave s.site.position s.site.identity managers w.master with
    ⟨a, t⟩
  rw [hconf] at hprepare
  have hstep : (s.configureCall managers).perform w.master = (.done a, t) := by
    rw [configureCall, MasterCall.perform, hconf]
    rfl
  have hbehind : t = Master.behind (before ++ [s.configureCall managers]) ⟨m, []⟩ := by
    rw [Master.behind_append, ← hreached, Master.behind_cons, hstep]
    rfl
  cases a with
  | error e =>
    exact ⟨w, managers, [], ⟨rig, hset⟩, hreached, hfinish,
      calls_of_result_prepare_error hprepare hbehind, List.forall_mem_nil _,
      fun h => absurd rfl h⟩
  | ok u =>
    obtain ⟨places, hcalls, hlocates⟩ := exists_places_of_result_prepare_ok hprepare hbehind
    refine ⟨w, managers, places, ⟨rig, hset⟩, hreached, hfinish, ?_, hlocates, fun _ => ?_⟩
    · rw [hcalls, List.append_assoc, List.singleton_append]
    · rw [hreached, Master.behind_traced, MasterCall.perform_traced] at hstep
      exact congrArg Prod.fst hstep

/-- The entries of a slave that was activated are where the answers to the last calls say. -/
theorem exists_offsets_of_activate {s s' : Slave} {m m' : μ}
    (h : (s.activate m).value = (.ok (), s', m')) :
    ∃ (before : List MasterCall) (offsets : List Offset),
      s.calls m = before ++ s'.regs.entries.map (·.call) ∧
        s'.regs.entries.map (·.offset?) = offsets.map some ∧
        Master.answers (s'.regs.entries.map (·.call)) (Master.behind before m) =
          offsets.map fun o => .place (.ok o) := by
  have htraced := s.activate_traced (⟨m, []⟩ : Traced μ)
  rw [h, value_activate_eq] at htraced
  rcases hsettle : s.settle.result (s.start (⟨m, []⟩ : Traced μ)) with ⟨e | rig, w⟩
  · rw [hsettle] at htraced
    cases congrArg Prod.fst htraced
  rw [hsettle] at htraced
  dsimp only at htraced
  rcases hcheck : (checkOverlap w.regs.entries).outcome with e | u
  · rw [hcheck] at htraced
    cases congrArg Prod.fst htraced
  rw [hcheck] at htraced
  have hregs : w.regs = s'.regs := congrArg (·.2.1.regs) htraced
  have hask := hsettle
  rw [settle] at hask
  simp only [Action.result_bind_eq_ok_iff, Action.result_pure_eq_ok_iff] at hask
  obtain ⟨rig', v, hprepare, _, w', hask, rfl, rfl⟩ := hask
  rw [Setup.result_ask, Prod.mk.injEq] at hask
  obtain ⟨hok, rfl⟩ := hask
  obtain ⟨hcalls, hmaster, offsets, hoffsets, hanswers⟩ := Registrations.calls_of_locateFrom hok
  obtain ⟨before, -, hbefore⟩ :=
    (s.agrees_prepare (μ := μ) (ν := μ) (F := .sharp)).talks (s.start (⟨m, []⟩ : Traced μ))
  rw [hprepare] at hbefore
  replace hbefore : v.master = Master.behind before (⟨m, []⟩ : Traced μ) := hbefore
  rw [← hregs]
  refine ⟨before, offsets, ?_, hoffsets, ?_⟩
  · apply calls_eq_of_behind
    rw [hsettle, hcalls, Master.behind_append, ← hbefore]
    exact hmaster
  · rw [hcalls, ← hanswers, hbefore, Master.answers_traced, Master.behind_traced]

/-- How an activation calls the master. -/
structure Careful (s : Slave) (m : μ) : Prop where
  /-- The slave is configured at most once. -/
  once : (s.calls m).countP (·.configures) ≤ 1
  /-- It is configured when its device was set up, with the sync managers that came of it. -/
  configures : ∀ {before after : List MasterCall} {slave : Position} {identity : Identity}
    {managers : List Sync.Manager},
    s.calls m = before ++ .configureSlave slave identity managers :: after →
      slave = s.site.position ∧ identity = s.site.identity ∧
        ∃ rig w, (s.type.setUp s.site s.settings).result (s.start ⟨m, []⟩) = (.ok rig, w) ∧
          w.master = Master.behind before (⟨m, []⟩ : Traced μ) ∧
          w.syncs.finish.outcome = .ok managers ∧
          managers = w.syncs.managers ++ [.terminator]
  /-- No entry is placed before the master has configured the slave. -/
  locates : ∀ {before after : List MasterCall} {slave : Position} {a : ObjectAddress},
    s.calls m = before ++ .locateEntry slave a :: after →
      ∃ first managers rest, before = first ++ s.configureCall managers :: rest ∧
        ((s.configureCall managers).perform (Master.behind first m)).1 = .done (.ok ())
  /-- Behind a success every entry is where the master has answered that it is. -/
  places : ∀ {s' m'}, (s.activate m).value = (.ok (), s', m') →
    ∃ (before : List MasterCall) (offsets : List Offset),
      s.calls m = before ++ s'.regs.entries.map (·.call) ∧
        s'.regs.entries.map (·.offset?) = offsets.map some ∧
        Master.answers (s'.regs.entries.map (·.call)) (Master.behind before m) =
          offsets.map fun o => .place (.ok o)

section Careful

variable {s : Slave} {m : μ} {init before after places : List MasterCall}
  {w : Workspace (Traced μ)} {managers : List Sync.Manager} {call : MasterCall}

theorem configures_eq_false_of_prepares (hinit : ∀ call ∈ init, call.Prepares s.site.position)
    (hcall : call ∈ init) : call.configures = false := by
  have h := hinit call hcall
  cases call with
  | configureSlave => cases h
  | _ => rfl

namespace Course

theorem configures_eq_false (h : s.Course m init w managers places) (hcall : call ∈ places) :
    call.configures = false := by
  obtain ⟨r, -, rfl⟩ := h.locates call hcall
  rfl

/-- There is one call that configures the slave. -/
theorem eq_of_configures (h : s.Course m init w managers places)
    (hinit : ∀ call ∈ init, call.Prepares s.site.position) (hcall : call.configures = true)
    (hcalls : s.calls m = before ++ call :: after) :
    before = init ∧ call = s.configureCall managers := by
  have hnotInit : call ∉ init := fun hm => by
    rw [configures_eq_false_of_prepares hinit hm] at hcall
    cases hcall
  have hnotPlaces : call ∉ places := fun hm => by
    rw [h.configures_eq_false hm] at hcall
    cases hcall
  rw [h.calls] at hcalls
  obtain ⟨rfl, rfl, -⟩ := (List.append_cons_inj_of_notMem hnotInit hnotPlaces).1 hcalls
  exact ⟨rfl, rfl⟩

/-- A call that asks for a place comes behind the one that configures the slave. -/
theorem exists_of_locates (h : s.Course m init w managers places)
    (hinit : ∀ call ∈ init, call.Prepares s.site.position) {slave : Position} {a : ObjectAddress}
    (hcalls : s.calls m = before ++ .locateEntry slave a :: after) :
    places ≠ [] ∧ ∃ rest, before = init ++ s.configureCall managers :: rest := by
  rw [h.calls] at hcalls
  rcases List.append_eq_append_iff.1 hcalls with ⟨rest, rfl, hrest⟩ | ⟨rest, rfl, hrest⟩
  · cases rest with
    | nil => cases hrest
    | cons call rest =>
      obtain ⟨rfl, rfl⟩ := List.cons_eq_cons.1 hrest
      refine ⟨?_, rest, rfl⟩
      exact List.append_ne_nil_of_right_ne_nil _ (List.cons_ne_nil _ _)
  · cases rest with
    | nil => cases hrest
    | cons call rest =>
      obtain ⟨rfl, -⟩ := List.cons_eq_cons.1 hrest
      cases hinit _ (List.mem_append_right _ List.mem_cons_self)

end Course

theorem careful (s : Slave) (m : μ) : s.Careful m := by
  obtain ⟨init, hinit, hcourse⟩ := s.course m
  have hnone : init.countP (·.configures) = 0 :=
    List.countP_eq_zero.2 fun call hcall => by
      simp [configures_eq_false_of_prepares hinit hcall]
  constructor
  case once =>
    rcases hcourse with hcalls | ⟨w, managers, places, h⟩
    · rw [hcalls, hnone]
      exact Nat.zero_le 1
    · have hplaces : places.countP (·.configures) = 0 :=
        List.countP_eq_zero.2 fun call hcall => by simp [h.configures_eq_false hcall]
      rw [h.calls, List.countP_append, List.countP_cons, hnone, hplaces]
      split <;> omega
  case configures =>
    intro before after slave identity managers hcalls
    rcases hcourse with hcourse | ⟨w, managers', places, h⟩
    · have hmem : MasterCall.configureSlave slave identity managers ∈ init := by
        rw [← hcourse, hcalls]
        exact List.mem_append_right _ List.mem_cons_self
      cases hinit _ hmem
    · obtain ⟨rfl, hcall⟩ := h.eq_of_configures hinit rfl hcalls
      cases hcall
      obtain ⟨rig, hset⟩ := h.setUp
      refine ⟨rfl, rfl, rig, w, hset, h.reached, h.finish, ?_⟩
      have hfinish := h.finish
      rw [Sync.Builder.outcome_finish] at hfinish
      split at hfinish
      · cases hfinish
      · exact (Except.ok.inj hfinish).symm
  case locates =>
    intro before after slave a hcalls
    rcases hcourse with hcourse | ⟨w, managers, places, h⟩
    · have hmem : MasterCall.locateEntry slave a ∈ init := by
        rw [← hcourse, hcalls]
        exact List.mem_append_right _ List.mem_cons_self
      cases hinit _ hmem
    · obtain ⟨hplaces, rest, rfl⟩ := h.exists_of_locates hinit hcalls
      exact ⟨init, managers, rest, rfl, h.accepted hplaces⟩
  case places => exact exists_offsets_of_activate

end Careful

/-- There is nothing in the slave, and room for so many entries. -/
structure Bare (s : Slave) (capacity : Nat) : Prop where
  inactive : s.isActive = false
  pins : s.pins = {}
  entries : s.regs.entries = []
  syncs : s.syncs.latest = []
  complete : s.syncs.failed = false
  capacity : s.regs.capacity = capacity

/-- After any events, an activation that fails leaves nothing of the slave but the room that its
type gives it; and successful or not, it calls the master with care. -/
theorem careful_after {master : String} {c : SlaveConfig} {t : DeviceType} {s : Slave}
    (hs : (create master c t).outcome = .ok s) (m : μ) (events : List (Event μ)) (m' : μ) :
    (∀ e, ((s.after m events).1.activate m').value.1 = .error e →
        ((s.after m events).1.activate m').value.2.1.Bare t.entryLimit) ∧
      (s.after m events).1.Careful m' := by
  refine ⟨fun e he => ?_, careful _ _⟩
  have hroot := s.root_after m events
  obtain ⟨site, settings, -, rfl⟩ := exists_of_outcome_create hs
  generalize (after _ m events).1 = s' at he hroot ⊢
  have hcapacity : s'.regs.capacity = t.entryLimit := congrArg (·.regs.capacity) hroot
  rw [value_activate] at he ⊢
  split at he
  · cases he
  · exact ⟨rfl, rfl, rfl, rfl, rfl, hcapacity⟩

/-- A stepper drive at the first position. -/
def firstDrive : SlaveConfig := { name := "a", position := 0, typeName := "EM3E-556E" }

/-- A slave that was configured by a rack and took part in a cycle. -/
def worked (s : Slave) : Slave :=
  (s.after ({ broken := [] } : Rack) [.activate, .updateState, .read, .write]).1

/-- Such a slave is gone when it is configured once more by a rack on which it is broken. -/
theorem careful_after_broken : ∃ t s e, Registry.bundled.find firstDrive.typeName = .ok t ∧
    (create "m0" firstDrive t).outcome = .ok s ∧ s.worked.isActive = true ∧
    (s.worked.activate ({ broken := [0] } : Rack)).value.1 = .error e ∧
    (s.worked.activate ({ broken := [0] } : Rack)).value.2.1.Bare t.entryLimit := by
  have hrun : ((Registry.bundled.find firstDrive.typeName).toOption.bind fun t =>
      (create "m0" firstDrive t).outcome.toOption.map fun s =>
        (s.worked.isActive, (s.worked.activate ({ broken := [0] } : Rack)).value.1.isOk)) =
      some (true, false) := by
    decide +kernel
  obtain ⟨t, ht, hmap⟩ := Option.bind_eq_some_iff.1 hrun
  obtain ⟨s, hs, hend⟩ := Option.map_eq_some_iff.1 hmap
  replace hs := Action.eq_ok_of_toOption hs
  obtain ⟨hactive, hok⟩ := Prod.mk.inj hend
  rcases he : (s.worked.activate ({ broken := [0] } : Rack)).value.1 with e | u
  · exact ⟨t, s, e, Action.eq_ok_of_toOption ht, hs, hactive, he, (careful_after hs _ _ _).1 e he⟩
  · rw [he] at hok
    cases hok

end Slave

end ServoBus
