import ServoBus.Proofs.Axis.Configure
import ServoBus.Proofs.Axis.Maps

/-!
# Room for the entries of a channel

A channel registers its entries in a list of its own and appends it to that of the slave. Both
go well if there is room, which `Channel.Takes` says for a number of entries. All that follows
is asking the master and adding pins: `Channel.Spares` says that this leaves the sync managers
alone, and that it does not fail for want of room, unless the master itself gives this as a
reason.
-/

namespace ServoBus.Axis

open ServoBus.Action (FailsWith)

namespace Channel

section Room

variable {α β : Type} {site : Site} {base : UInt16}

/-- An action that registers so many entries, and fails only if they do not find room. -/
def Takes (x : Action Registrations α) (n : Nat) : Prop :=
  ∀ r : Registrations, r.size + n ≤ r.capacity →
    ∃ a r', x.result r = (.ok a, r') ∧ r'.size = r.size + n ∧ r'.capacity = r.capacity

theorem takes_pure (a : α) : Takes (pure a : Action Registrations α) 0 :=
  fun r _ => ⟨a, r, rfl, rfl, rfl⟩

theorem takes_register (slave : Position) (a : ObjectAddress) (width : Nat) :
    Takes (Registrations.register slave a width) 1 := by
  intro r hr
  refine ⟨⟨r.size⟩, _, Registrations.result_register_eq_ok_iff.2 ⟨hr, rfl, rfl⟩, ?_, rfl⟩
  rw [Registrations.size_extend]
  rfl

theorem Takes.bind {x : Action Registrations α} {f : α → Action Registrations β} {m n : Nat}
    (hx : Takes x m) (hf : ∀ a, Takes (f a) n) : Takes (x >>= f) (m + n) := by
  intro r hr
  obtain ⟨a, r₁, h₁, hsize₁, hcap₁⟩ := hx r (by omega)
  obtain ⟨b, r₂, h₂, hsize₂, hcap₂⟩ := hf a r₁ (by omega)
  refine ⟨b, r₂, Action.result_bind_eq_ok_iff.2 ⟨a, r₁, h₁, h₂⟩, ?_, hcap₂.trans hcap₁⟩
  rw [hsize₂, hsize₁, Nat.add_assoc]

theorem takes_registerObjects (l : List (Feature × DriveObject)) :
    Takes (registerObjects site base l) l.length := by
  induction l with
  | nil => exact takes_pure []
  | cons x l ih =>
    have h := (takes_register site.position ⟨x.2.index base, x.2.subindex⟩ x.2.format.width).bind
      fun entry => ih.bind fun others => takes_pure (⟨x.1, x.2, entry⟩ :: others)
    rw [List.length_cons, Nat.add_comm]
    exact h

theorem takes_registerEntries (enabled : FeatureSet) :
    Takes (registerEntries site base enabled) (channelEntries site base enabled).length := by
  have hlen : (channelEntries site base enabled).length =
      1 + (1 + ((enabled.objects .input).length + ((enabled.objects .output).length + 0))) := by
    simp only [channelEntries, mappedObjects, List.length_cons, List.length_map,
      List.length_append]
    omega
  rw [hlen]
  refine (takes_register _ _ _).bind fun control => ?_
  refine (takes_register _ _ _).bind fun status => ?_
  refine (takes_registerObjects _).bind fun inputs => ?_
  refine (takes_registerObjects _).bind fun outputs => ?_
  exact takes_pure _

/-- There is no other fault of a registration than that there is no room for it. -/
theorem failsWith_register (slave : Position) (a : ObjectAddress) (width : Nat) :
    FailsWith Fault.IsRegistrationsFull (Registrations.register slave a width) := by
  intro r e r' h
  rw [Registrations.register, Action.result_bind] at h
  simp only [Action.result_get] at h
  split at h <;> cases h
  exact ⟨_, _, _, rfl⟩

theorem failsWith_append (other : Registrations) :
    FailsWith Fault.IsRegistrationsFull (Registrations.append other) := by
  intro r e r' h
  rw [Registrations.append, Action.result_bind] at h
  simp only [Action.result_get] at h
  split at h <;> cases h
  exact ⟨_, _, _, rfl⟩

theorem failsWith_registerObjects (l : List (Feature × DriveObject)) :
    FailsWith Fault.IsRegistrationsFull (registerObjects site base l) := by
  induction l with
  | nil => exact Action.failsWith_pure []
  | cons x l ih =>
    exact (failsWith_register _ _ _).bind fun _ => ih.bind fun _ => Action.failsWith_pure _

theorem failsWith_registerEntries (enabled : FeatureSet) :
    FailsWith Fault.IsRegistrationsFull (registerEntries site base enabled) := by
  refine (failsWith_register _ _ _).bind fun control => ?_
  refine (failsWith_register _ _ _).bind fun status => ?_
  refine (failsWith_registerObjects _).bind fun inputs => ?_
  refine (failsWith_registerObjects _).bind fun outputs => ?_
  exact Action.failsWith_pure _

/-- A list whose entries find room is appended. -/
theorem result_append_of_le {other r : Registrations} (h : r.size + other.size ≤ r.capacity) :
    (Registrations.append other).result r = (.ok ⟨r.size⟩, r.extend other.entries) :=
  Registrations.result_append_eq_ok_iff.2 ⟨h, rfl, rfl⟩

end Room

section Setup

variable {μ α β : Type} [Master μ] {site : Site}

/-- The master refused a request to the slave with this fault. -/
def Refused (μ : Type) [Master μ] (site : Site) (e : Fault) : Prop :=
  ∃ (a : ObjectAddress) (length : Nat) (m m' : μ),
    Master.createRequest site.position a length m = (.error e, m')

/-- The shape of the drive is at fault, or the master refused a request. -/
def OfShapeOrRefused (μ : Type) [Master μ] (site : Site) (e : Fault) : Prop :=
  e.OfShape ∨ Refused μ site e

/-- A fault that is not for want of room, unless it is the answer of the master. -/
def NotForRoom (μ : Type) [Master μ] (site : Site) (e : Fault) : Prop :=
  e.IsRegistrationsFull → Refused μ site e

theorem OfShapeOrRefused.notForRoom {e : Fault} (h : OfShapeOrRefused μ site e) :
    NotForRoom μ site e :=
  fun hfull => h.resolve_left fun hshape => hshape.not_isRegistrationsFull hfull

/-- An action that maps nothing, and does not fail for want of room. -/
structure Spares (site : Site) (x : Setup μ α) : Prop where
  syncs : Action.Keeps (·.syncs) x
  fault : FailsWith (OfShapeOrRefused μ site) x

theorem spares_pure (a : α) : Spares site (pure a : Setup μ α) :=
  ⟨Action.moves_pure a, Action.failsWith_pure a⟩

theorem spares_get : Spares site (get : Setup μ (Workspace μ)) :=
  ⟨Action.moves_get, Action.failsWith_get⟩

theorem spares_lift (x : Logged α) : Spares site (liftM x : Setup μ α) :=
  ⟨Action.moves_lift x, Action.failsWith_lift x⟩

theorem Spares.bind {x : Setup μ α} {f : α → Setup μ β} (hx : Spares site x)
    (hf : ∀ a, Spares site (f a)) : Spares site (x >>= f) :=
  ⟨hx.syncs.bind fun a => (hf a).syncs, hx.fault.bind fun a => (hf a).fault⟩

theorem spares_onPins_modify (f : PinTable → PinTable) :
    Spares site (Setup.onPins (μ := μ) (modify f)) :=
  ⟨Action.keeps_zoom _ fun _ _ => rfl, (Action.failsWith_modify f).zoom _ _⟩

omit [Master μ] in
theorem keeps_syncs {x : Setup μ α} (hx : Action.Keeps Setup.made x) :
    Action.Keeps (·.syncs) x :=
  fun w => congrArg Prod.fst (hx w)

theorem spares_addPin (label? : Option String) (name : String) (kind : Pin.Kind)
    (direction : Pin.Direction) :
    Spares site (Setup.addPin (μ := μ) site label? name kind direction) := by
  refine ⟨Action.keeps_zoom _ fun _ _ => rfl, FailsWith.zoom ?_ _ _⟩
  intro t e t' h
  rw [PinTable.result_add] at h
  split at h <;> cases h
  exact .inl trivial

theorem spares_readModes (base : UInt16) (label : String) :
    Spares site (readModes (μ := μ) site base label) := by
  have hnone (e : Fault) : Spares (μ := μ) site (do
      Logged.warn s!"slave {site.device}: supported drive modes of {label} unknown, assuming none"
      pure (0 : UInt32)) :=
    (spares_lift _).bind fun _ => spares_pure 0
  constructor
  · exact (keeps_syncs (Setup.moves_readWord32 _ _)).tryCatch fun e => (hnone e).syncs
  · exact FailsWith.tryCatch fun e => (hnone e).fault

theorem spares_addModePins (label : String) (modes : UInt32) (bits : List (String × Nat)) :
    Spares site (addModePins (μ := μ) site label modes bits) := by
  induction bits with
  | nil => exact spares_pure ()
  | cons bit bits ih =>
    exact (spares_addPin _ _ _ _).bind fun pin => (spares_onPins_modify _).bind fun _ => ih

theorem spares_addObjectPins (label : String) (packed : FeatureSet) (xs : List Registered) :
    Spares site (addObjectPins (μ := μ) site label packed xs) := by
  induction xs with
  | nil => exact spares_pure _
  | cons r rest ih =>
    rw [addObjectPins]
    split
    · exact ih.bind fun x => spares_pure _
    · refine (spares_addPin _ _ _ _).bind fun pin => ih.bind fun x => ?_
      split
      · exact spares_pure _
      · exact spares_pure _

/-- Here the master may give any reason. -/
theorem spares_addService (base : UInt16) (c : ChannelOptions) (o : DriveObject) :
    Spares site (addService (μ := μ) site base c o) := by
  have hcreate (a : ObjectAddress) (length : Nat) (note : Fault → Logged Unit) : Spares site
      ((Setup.onMaster (Master.createRequest (μ := μ) site.position a length)).noting note) := by
    constructor
    · exact (keeps_syncs (Setup.keeps_onMaster _)).noting note
    · refine (FailsWith.zoom ?_ _ _).noting note
      intro m e m' h
      exact .inr ⟨a, length, m, m', h⟩
  have hend (pin : PinRef) (request : RequestRef) : Spares site (do
      let current := (← (get : Setup μ (Workspace μ))).pins.raw pin
      let name := Pin.fullName site.master site.slave (some c.label) o.pinName
      pure (⟨.start name request o.format.width current, pin⟩ : Served)) :=
    spares_get.bind fun _ => spares_pure _
  refine (hcreate _ _ _).bind fun request => ?_
  refine (spares_addPin _ _ _ _).bind fun pin => ?_
  split
  · exact (spares_onPins_modify _).bind fun _ => hend pin request
  · exact hend pin request

theorem spares_mapM {f : β → Setup μ α} (hf : ∀ x, Spares site (f x)) (xs : List β) :
    Spares site (xs.mapM f) :=
  ⟨Action.Moves.mapM (fun x => (hf x).syncs) xs, FailsWith.mapM (fun x => (hf x).fault) xs⟩

/-- The entries of a channel find room for themselves, and together with those that are there. -/
def Fits (site : Site) (n : Nat) (o : ChannelOptions) (r : Registrations) : Prop :=
  (channelEntries site (Axis.base n) o.requested.resolve).length ≤ Sync.entryLimit ∧
    r.size + (channelEntries site (Axis.base n) o.requested.resolve).length ≤ r.capacity

/-- Registering a channel maps nothing, and it fails for want of room only if the entries of the
channel do not fit. -/
theorem syncs_register {n : Nat} {o : ChannelOptions} {w w' : Workspace μ}
    {r : Except Fault Channel} (h : (register site n o).result w = (r, w')) :
    w'.syncs = w.syncs ∧ ∀ e, r = .error e →
      OfShapeOrRefused μ site e ∨ e.IsRegistrationsFull ∧ ¬ Fits site n o w.regs := by
  rw [register, Action.result_bind, Action.result_within] at h
  rcases hown : (registerEntries site (Axis.base n) o.requested.resolve).result
      ⟨site.device, Sync.entryLimit, []⟩ with ⟨e | ⟨control, status, objects⟩, own⟩
  · rw [hown] at h
    cases h
    refine ⟨rfl, fun e' he => .inr ?_⟩
    cases he
    refine ⟨failsWith_registerEntries _ _ _ _ hown, fun hfits => ?_⟩
    obtain ⟨p, r', hr', -⟩ := takes_registerEntries o.requested.resolve
      ⟨site.device, Sync.entryLimit, []⟩
      (Nat.le_trans (Nat.le_of_eq (Nat.zero_add _)) hfits.1)
    rw [hr'] at hown
    cases hown
  · rw [hown] at h
    simp only [Except.map] at h
    have hsize : own.size = (channelEntries site (Axis.base n) o.requested.resolve).length :=
      congrArg List.length (of_result_registerEntries hown).1
    rw [Action.result_bind, Setup.onRegs, Action.result_zoom] at h
    rcases happend : (Registrations.append own).result w.regs with ⟨e | start, regs⟩
    · rw [happend] at h
      cases h
      refine ⟨rfl, fun e' he => .inr ?_⟩
      cases he
      refine ⟨failsWith_append own _ _ _ happend, fun hfits => ?_⟩
      rw [Fits, ← hsize] at hfits
      rw [result_append_of_le hfits.2] at happend
      cases happend
    · rw [happend] at h
      simp only at h
      -- all that follows is asking the master and adding pins
      suffices hrest : Spares site _ by
        have hkeep := hrest.syncs.of_result h
        refine ⟨hkeep, fun e he => .inl ?_⟩
        rw [he] at h
        exact hrest.fault _ _ _ h
      refine (spares_addPin _ _ _ _).bind fun controlPin => ?_
      refine (spares_addPin _ _ _ _).bind fun statusPin => ?_
      refine (spares_readModes _ _).bind fun modes => ?_
      refine (spares_addPin _ _ _ _).bind fun modesPin => ?_
      refine (spares_onPins_modify _).bind fun _ => ?_
      refine (spares_addModePins _ _ _).bind fun _ => ?_
      refine (spares_addObjectPins _ _ _).bind fun exchange => ?_
      refine (spares_mapM (fun _ => spares_addService _ _ _) _).bind fun services => ?_
      refine (spares_lift _).bind fun _ => ?_
      exact spares_pure _

end Setup

end Channel

section Channels

variable {μ : Type} [Master μ] {site : Site}

open Channel (NotForRoom)

/-- Channels whose entries find room together do not fail for want of room. -/
theorem notForRoom_of_result_registerAll {l : List (ChannelOptions × Nat)} {w w' : Workspace μ}
    {e : Fault} (hlimit : (driveEntries site l).length ≤ Sync.entryLimit)
    (hroom : w.regs.size + (driveEntries site l).length ≤ w.regs.capacity)
    (h : Action.result (l.mapM fun (c, n) => Channel.register site n c) w = (.error e, w')) :
    NotForRoom μ site e := by
  induction l generalizing w with
  | nil => cases h
  | cons p l ih =>
    have hlen : (driveEntries site (p :: l)).length =
        (channelEntries site (base p.2) p.1.requested.resolve).length +
          (driveEntries site l).length := by
      rw [driveEntries, List.flatMap_cons, List.length_append]
      rfl
    rw [List.mapM_cons] at h
    rcases Action.result_bind_eq_error_iff.1 h with h | ⟨c, w₁, hc, h⟩
    · refine ((Channel.syncs_register h).2 e rfl).elim (·.notForRoom) fun hfull => ?_
      exact absurd ⟨by omega, by omega⟩ hfull.2
    · rcases Action.result_bind_eq_error_iff.1 h with h | ⟨cs, w₂, -, h⟩
      · refine ih (by omega) ?_ h
        rw [(Channel.of_result_register hc).1, Registrations.size_extend]
        show _ ≤ w.regs.capacity
        omega
      · cases h

end Channels

end ServoBus.Axis
