import ServoBus.Proofs.Device.Effects
import ServoBus.Proofs.Slave.Handled
import ServoBus.Proofs.Param.Latest

/-!
# Later settings overwrite earlier ones

All that a setting can leave behind is in cells: an option of the device, a feature of a channel,
what is recorded of an object, and what an object of a slave holds. A parameter owns the same cells
of a channel with every value, and no two numbers of a device own one cell in common. So the latest
setting of each number is all that counts, and the order of settings of different numbers does not
matter (`matches_of_latest`).
-/

namespace ServoBus

open Param (maxChannels)

inductive Cell where
  /-- An option of the device as a whole. -/
  | device (q : Generic.DriveParam)
  /-- Whether a feature is asked for on a channel. -/
  | feature (channel : Fin maxChannels) (f : Feature)
  /-- The value that is recorded for an object of a channel. -/
  | record (channel : Fin maxChannels) (offset : UInt16) (subindex : UInt8)
  /-- The options of a channel that are not set by parameters. -/
  | rest (channel : Fin maxChannels)
  /-- The bytes that were sent to an object of a slave last. -/
  | object (slave : Position) (a : ObjectAddress)

/-- The option of a device that a parameter sets. -/
def Generic.DriveParam.number (o : Axis.Options) : DriveParam → Nat
  | channels => o.channels
  | outputLimit => o.outputLimit
  | inputLimit => o.inputLimit
  | increment => o.increment.toNat
  | autoflow => o.autoflow.toNat
  | pdoLimit => o.pdoLimit
  | pdoEntryLimit => o.pdoEntryLimit

namespace Cell

/-- What a cell can hold. -/
abbrev Content : Cell → Type
  | device _ => Nat
  | feature _ _ => Bool
  | record _ _ _ => Option Int
  | rest _ => Axis.ChannelOptions
  | object _ _ => Option Bytes

/-- What a cell holds, by options and by calls of which the latest is the first. -/
def view (o : Axis.Options) (calls : List MasterCall) : (k : Cell) → k.Content
  | device q => q.number o
  | feature channel f => (o.channel.get channel).requested.contains f
  | record channel offset subindex => (o.channel.get channel).sent? offset subindex
  | rest channel => { o.channel.get channel with requested := ∅, sent := [] }
  | object slave a => lastSent? slave a calls

end Cell

namespace Parameter

/-- Where the objects of a parameter stand in the block of a channel. -/
def places : Parameter → List (UInt16 × UInt8)
  | stepper .controlMode => [(0x24, 0)]
  | stepper _ => [(0, 0)]
  | object q => [(q.offset, q.subindex)]
  | ratio q => [(q.offset, 1), (q.offset, 2)]
  | drive _ | enable _ => []

/-- Where the blocks of the channels begin. -/
def origin : Parameter → UInt16
  | stepper _ => 0x2000
  | _ => 0x6000

/-- The objects to which a parameter is sent. -/
def addresses (channel : Fin maxChannels) (q : Parameter) : List ObjectAddress :=
  q.places.map fun x => ⟨q.origin + 0x800 * UInt16.ofNat channel + x.1, x.2⟩

/-- The places of a channel at which the value of a parameter is recorded. -/
def records : Parameter → List (UInt16 × UInt8)
  | object q => [(q.offset, q.subindex)]
  | _ => []

/-- A parameter of a slave sets this cell when it is set for a channel. -/
def Owns (slave : Position) (channel : Fin maxChannels) (q : Parameter) : Cell → Prop
  | .device d => q = drive d
  | .feature channel' f => channel' = channel ∧ q = enable f
  | .record channel' offset subindex => channel' = channel ∧ (offset, subindex) ∈ q.records
  | .rest _ => False
  | .object slave' a => slave' = slave ∧ a ∈ q.addresses channel

instance (slave : Position) (channel : Fin maxChannels) (q : Parameter) (k : Cell) :
    Decidable (q.Owns slave channel k) :=
  match k with
  | .device d => inferInstanceAs (Decidable (q = drive d))
  | .feature channel' f => inferInstanceAs (Decidable (channel' = channel ∧ q = enable f))
  | .record channel' offset subindex =>
    inferInstanceAs (Decidable (channel' = channel ∧ (offset, subindex) ∈ q.records))
  | .rest _ => inferInstanceAs (Decidable False)
  | .object slave' a => inferInstanceAs (Decidable (slave' = slave ∧ a ∈ q.addresses channel))

/-! ## Every cell has one owner -/

theorem places_lt (family : Family) : ∀ q ∈ family.parameters, ∀ x ∈ q.places,
    x.1.toNat < 0x800 := by
  -- with a quantifier for places, all pairs of numbers would be gone through
  have hall : ∀ q ∈ family.parameters, (q.places.all fun x => x.1.toNat < 0x800) = true := by
    cases family <;> decide +kernel
  exact fun q hq x hx => of_decide_eq_true (List.all_eq_true.1 (hall q hq) x hx)

theorem name_eq_of_mem_places (family : Family) : ∀ q ∈ family.parameters,
    ∀ x ∈ q.places, ∀ q' ∈ family.parameters, q'.origin = q.origin → x ∈ q'.places →
      q'.name = q.name := by
  have hall : ∀ q ∈ family.parameters, ∀ q' ∈ family.parameters, q'.origin = q.origin →
      (q.places.any fun x => q'.places.contains x) = true → q'.name = q.name := by
    cases family <;> decide +kernel
  exact fun q hq x hx q' hq' horigin hx' => hall q hq q' hq' horigin
    (List.any_eq_true.2 ⟨x, hx, List.contains_iff_mem.2 hx'⟩)

/-- Blocks of channels do not overlap, neither those of axes nor those in front of them. -/
theorem index_inj (q q' : Parameter) {channel channel' : Fin maxChannels}
    {offset offset' : UInt16} (ho : offset.toNat < 0x800) (ho' : offset'.toNat < 0x800)
    (h : q'.origin + 0x800 * UInt16.ofNat channel' + offset' =
      q.origin + 0x800 * UInt16.ofNat channel + offset) :
    q'.origin = q.origin ∧ channel' = channel ∧ offset' = offset := by
  have horigin (q : Parameter) : q.origin = 0x2000 ∨ q.origin = 0x6000 := by
    cases q <;> simp [origin]
  have hc : channel.val < 8 := channel.isLt
  have hc' : channel'.val < 8 := channel'.isLt
  have hn := congrArg UInt16.toNat h
  simp only [UInt16.toNat_add, UInt16.toNat_mul, UInt16.toNat_ofNat', UInt16.reduceToNat] at hn
  rw [Fin.ext_iff, ← UInt16.toNat_inj (a := offset')]
  rcases horigin q with hq | hq <;> rcases horigin q' with hq' | hq' <;>
    simp only [hq, hq', UInt16.reduceToNat] at hn
  · exact ⟨hq'.trans hq.symm, by omega, by omega⟩
  · omega
  · omega
  · exact ⟨hq'.trans hq.symm, by omega, by omega⟩

end Parameter

namespace DeviceType

/-- A setting is about a parameter of a device type and a channel, by its name and its number. -/
structure Aims (t : DeviceType) (p : Param.Setting) (q : Parameter)
    (channel : Fin maxChannels) : Prop where
  denotes : t.Denotes p.name q channel
  id_eq : p.id = q.id + UInt32.ofNat channel
  hasChannels : q.hasChannels = true ∨ channel.val = 0

variable {t : DeviceType} {p p' : Param.Setting} {q q' : Parameter}
  {channel channel' : Fin maxChannels} {slave : Position}

theorem Table.exists_aims (table : t.Table) {given : String × String}
    (h : p.MadeFrom t.declarations given) : ∃ q channel, t.Aims p q channel := by
  obtain ⟨d, hfind, hid, hname, -⟩ := h
  obtain ⟨hd, hdname⟩ := (Param.find?_eq_some_iff table.nodup_names).1 hfind
  obtain ⟨q, channel, hdenotes, hdid, hchannel⟩ := table.exists_denotes hd
  rw [hdname, ← hname] at hdenotes
  exact ⟨q, channel, hdenotes, hid.trans hdid, hchannel⟩

theorem Aims.apply_eq {μ : Type} [Master μ] (h : t.Aims p q channel) (site : Site)
    (o : Axis.Options) : t.apply (μ := μ) site o p = q.apply site channel o p :=
  DeviceType.apply_eq h.denotes.mem h.hasChannels h.id_eq

/-- A name of a parameter is declared for one parameter. -/
theorem Aims.eq_of_name_eq (table : t.Table) (h : t.Aims p q channel) (h' : t.Aims p' q' channel')
    (hname : q'.name = q.name) : q' = q := by
  have hbare {p : Param.Setting} {q : Parameter} {channel : Fin maxChannels}
      (h : t.Aims p q channel) : t.Denotes q.name q ⟨0, by decide⟩ :=
    ⟨h.denotes.mem, h.denotes.declared, .inl ⟨rfl, rfl⟩⟩
  exact (table.denotes_inj (hbare h) (hname ▸ hbare h')).1

/-- Parameters without channels have the lowest numbers, and the others leave room for a
channel. -/
theorem id_table : ∀ family : Family, ∀ q ∈ family.parameters,
    if q.hasChannels then 8 ≤ q.id.toNat ∧ q.id.toNat % maxChannels = 0 else q.id.toNat < 8 := by
  intro family
  cases family <;> decide +kernel

theorem Aims.toNat_id (h : t.Aims p q channel) : p.id.toNat = q.id.toNat + channel := by
  rw [h.id_eq]
  rcases h.hasChannels with hq | hzero
  · have htable := id_table t.family q h.denotes.mem
    rw [if_pos hq] at htable
    exact Param.toNat_add_channel htable.2 channel
  · rw [hzero]
    exact congrArg UInt32.toNat (UInt32.add_zero _)

theorem Aims.id_eq_iff (h : t.Aims p q channel) (h' : t.Aims p' q' channel') :
    p'.id = p.id ↔ q' = q ∧ channel' = channel := by
  constructor
  · intro hid
    have hn := congrArg UInt32.toNat hid
    rw [h.toNat_id, h'.toNat_id] at hn
    have hc : channel.val < 8 := channel.isLt
    have hc' : channel'.val < 8 := channel'.isLt
    have htable := id_table t.family q h.denotes.mem
    have htable' := id_table t.family q' h'.denotes.mem
    have hzero := h.hasChannels
    have hzero' := h'.hasChannels
    simp only [maxChannels] at htable htable'
    have hparts : q'.id.toNat = q.id.toNat ∧ channel'.val = channel.val := by
      cases hq : q.hasChannels <;> cases hq' : q'.hasChannels <;>
        simp only [hq, hq', Bool.false_eq_true, if_false, if_true, false_or] at * <;> omega
    exact ⟨Parameter.eq_of_id_eq h'.denotes.mem h.denotes.mem (UInt32.toNat_inj.1 hparts.1),
      Fin.ext hparts.2⟩
  · rintro ⟨rfl, rfl⟩
    rw [h.id_eq, h'.id_eq]

/-- No two settings of different numbers set one cell. -/
theorem Aims.eq_of_owns (table : t.Table) (h : t.Aims p q channel) (h' : t.Aims p' q' channel')
    {k : Cell} (hk : q.Owns slave channel k) (hk' : q'.Owns slave channel' k) :
    q' = q ∧ channel' = channel := by
  have hplace {x : UInt16 × UInt8} (hx : x ∈ q.places) (hx' : x ∈ q'.places)
      (horigin : q'.origin = q.origin) : q' = q :=
    h.eq_of_name_eq table h' (Parameter.name_eq_of_mem_places t.family q h.denotes.mem x hx q'
      h'.denotes.mem horigin hx')
  cases k with
  | device d =>
    obtain rfl : q = .drive d := hk
    obtain rfl : q' = .drive d := hk'
    have hzero := h.hasChannels.resolve_left Bool.false_ne_true
    have hzero' := h'.hasChannels.resolve_left Bool.false_ne_true
    exact ⟨rfl, Fin.ext (hzero'.trans hzero.symm)⟩
  | feature c f =>
    obtain ⟨rfl, rfl⟩ := hk
    obtain ⟨rfl, rfl⟩ := hk'
    exact ⟨rfl, rfl⟩
  | record c offset subindex =>
    obtain ⟨rfl, hx⟩ := hk
    obtain ⟨rfl, hx'⟩ := hk'
    have hobject {q : Parameter} (hx : (offset, subindex) ∈ q.records) :
        (offset, subindex) ∈ q.places ∧ q.origin = 0x6000 := by
      cases q with
      | object r => exact ⟨hx, rfl⟩
      | _ => cases hx
    exact ⟨hplace (hobject hx).1 (hobject hx').1
      ((hobject hx').2.trans (hobject hx).2.symm), rfl⟩
  | rest c => cases hk
  | object s a =>
    obtain ⟨-, ha⟩ := hk
    obtain ⟨-, ha'⟩ := hk'
    obtain ⟨x, hx, rfl⟩ := List.mem_map.1 ha
    obtain ⟨x', hx', heq⟩ := List.mem_map.1 ha'
    obtain ⟨hindex, hsub⟩ := ObjectAddress.mk.inj heq
    obtain ⟨horigin, hchannel, hoffset⟩ := Parameter.index_inj q q'
      (Parameter.places_lt t.family q h.denotes.mem x hx)
      (Parameter.places_lt t.family q' h'.denotes.mem x' hx') hindex
    have hxx : x' = x := Prod.ext hoffset hsub
    exact ⟨hplace hx (hxx ▸ hx') horigin, hchannel⟩

end DeviceType

/-! ## What is left behind -/

section LastSent

variable {slave slave' : Position} {a : ObjectAddress} {xs : List (ObjectAddress × Bytes)}

theorem lastSent?_sending_of_not (calls : List MasterCall)
    (h : ¬ (slave' = slave ∧ a ∈ xs.map Prod.fst)) :
    lastSent? slave' a ((xs.flatMap fun x => MasterCall.sending slave x.1 x.2).reverse ++ calls) =
      lastSent? slave' a calls := by
  induction xs generalizing calls with
  | nil => rfl
  | cons x xs ih =>
    have htail : ¬ (slave' = slave ∧ a ∈ xs.map Prod.fst) :=
      fun hmem => h ⟨hmem.1, List.mem_cons_of_mem _ hmem.2⟩
    have hhead : ¬ (slave = slave' ∧ x.1 = a) := by
      rintro ⟨rfl, rfl⟩
      exact h ⟨rfl, List.mem_cons_self⟩
    rw [List.flatMap_cons, List.reverse_append, List.append_assoc, ih _ htail]
    change lastSent? slave' a (.addConfig slave x.1 x.2 :: .download slave x.1 x.2 :: calls) = _
    rw [lastSent?_cons_of_idle fun _ _ => rfl, lastSent?, List.findSome?_cons,
      MasterCall.content?, if_neg hhead]
    rfl

/-- What was sent to an object before does not matter once something else is sent to it. -/
theorem lastSent?_sending_of_mem (calls calls' : List MasterCall) (h : a ∈ xs.map Prod.fst) :
    lastSent? slave a ((xs.flatMap fun x => MasterCall.sending slave x.1 x.2).reverse ++ calls) =
      lastSent? slave a
        ((xs.flatMap fun x => MasterCall.sending slave x.1 x.2).reverse ++ calls') := by
  induction xs generalizing calls calls' with
  | nil => cases h
  | cons x xs ih =>
    rw [List.flatMap_cons, List.reverse_append, List.append_assoc, List.append_assoc]
    by_cases htail : a ∈ xs.map Prod.fst
    · exact ih _ _ htail
    · obtain rfl : a = x.1 := (List.mem_cons.1 h).resolve_right htail
      rw [lastSent?_sending_of_not _ fun hmem => htail hmem.2,
        lastSent?_sending_of_not _ fun hmem => htail hmem.2]
      change lastSent? slave x.1 (.addConfig slave x.1 x.2 :: .download slave x.1 x.2 :: calls) =
        lastSent? slave x.1 (.addConfig slave x.1 x.2 :: .download slave x.1 x.2 :: calls')
      rw [lastSent?_cons_of_idle fun _ _ => rfl, lastSent?_cons_self,
        lastSent?_cons_of_idle fun _ _ => rfl, lastSent?_cons_self]

end LastSent

namespace Parameter

variable {slave : Position} {channel : Fin maxChannels} {v : Param.Value} {q : Parameter}

theorem map_fst_sends (h : q.Admits v) :
    (q.sends channel v).map Prod.fst = q.addresses channel := by
  cases q with
  | drive q => rfl
  | stepper q =>
    cases q with
    | peakCurrentCoarse => simp [sends, addresses, places, origin]
    | peakCurrentFine => simp [sends, addresses, places, origin]
    | controlMode =>
      obtain ⟨mode, hmode⟩ := Option.isSome_iff_exists.1 h
      rw [sends, hmode]
      rfl
  | object q => rfl
  | ratio q =>
    obtain ⟨r, hr, -⟩ := h
    rw [sends, hr]
    rfl
  | enable f => rfl

/-- What a parameter changes in the options of a channel. -/
def changeChannel (v : Param.Value) (c : Axis.ChannelOptions) : Parameter → Axis.ChannelOptions
  | object q => c.noteSent q.offset q.subindex (q.number v)
  | enable f => { c with requested := c.requested.assign f v.asBool }
  | _ => c

theorem get_change (o : Axis.Options) (channel' : Fin maxChannels) :
    (q.change channel v o).channel.get channel' =
      if channel = channel' then q.changeChannel v (o.channel.get channel')
      else o.channel.get channel' := by
  cases q with
  | drive q => cases q <;> exact (ite_self _).symm
  | object q => exact Axis.Options.get_modifyChannel ..
  | enable f => exact Axis.Options.get_modifyChannel ..
  | _ => exact (ite_self _).symm

theorem number_change (d : Generic.DriveParam) (h : q ≠ drive d) (o : Axis.Options) :
    d.number (q.change channel v o) = d.number o := by
  cases q with
  | drive e => cases d <;> cases e <;> first | rfl | exact absurd rfl h
  | _ => cases d <;> rfl

/-- A cell that a parameter does not own stays as it is. -/
theorem view_of_not_owns (hv : q.Admits v) {k : Cell} (hk : ¬ q.Owns slave channel k)
    (o : Axis.Options) (calls : List MasterCall) :
    k.view (q.change channel v o) ((q.calls slave channel v).reverse ++ calls) =
      k.view o calls := by
  cases k with
  | device d => exact number_change d hk o
  | feature c f =>
    simp only [Cell.view, get_change]
    split
    · next hc =>
      cases q with
      | enable g =>
        have hne : f ≠ g := by
          rintro rfl
          exact hk ⟨hc.symm, rfl⟩
        exact (FeatureSet.contains_assign ..).trans (if_neg hne)
      | _ => rfl
    · rfl
  | record c offset subindex =>
    simp only [Cell.view, get_change]
    split
    · next hc =>
      cases q with
      | object r =>
        refine Axis.ChannelOptions.sent?_noteSent_of_ne ?_
        rintro ⟨rfl, rfl⟩
        exact hk ⟨hc.symm, List.mem_singleton_self _⟩
      | _ => rfl
    · rfl
  | rest c =>
    simp only [Cell.view, get_change]
    split
    · cases q <;> rfl
    · rfl
  | object s a =>
    refine lastSent?_sending_of_not _ ?_
    rwa [map_fst_sends hv]

/-- A cell that a parameter owns gets what does not depend on what was there before. -/
theorem view_of_owns (hv : q.Admits v) {k : Cell} (hk : q.Owns slave channel k)
    (o o' : Axis.Options) (calls calls' : List MasterCall) :
    k.view (q.change channel v o) ((q.calls slave channel v).reverse ++ calls) =
      k.view (q.change channel v o') ((q.calls slave channel v).reverse ++ calls') := by
  cases k with
  | device d =>
    obtain rfl : q = .drive d := hk
    cases d <;> rfl
  | feature c f =>
    obtain ⟨rfl, rfl⟩ := hk
    simp only [Cell.view, get_change, if_true, changeChannel, FeatureSet.contains_assign]
  | record c offset subindex =>
    obtain ⟨rfl, hx⟩ := hk
    cases q with
    | object r =>
      obtain ⟨rfl, rfl⟩ := Prod.mk.inj (List.mem_singleton.1 hx)
      simp only [Cell.view, get_change, if_true, changeChannel, Axis.ChannelOptions.sent?_noteSent]
    | _ => cases hx
  | rest c => cases hk
  | object s a =>
    obtain ⟨rfl, ha⟩ := hk
    refine lastSent?_sending_of_mem _ _ ?_
    rwa [map_fst_sends hv]

end Parameter

/-! ## Runs -/

/-- A call by which something is sent to an object. -/
def MasterCall.Sends : MasterCall → Prop
  | download _ _ _ | addConfig _ _ _ => True
  | _ => False

/-- A master that takes whatever is sent, however much was sent to it before. -/
def Master.Accepts {μ : Type} [Master μ] (m : μ) : Prop :=
  ∀ calls : List MasterCall, (∀ call ∈ calls, call.Sends) → Takes calls m

namespace Parameter

variable {μ : Type} [Master μ] {site : Site} {channel : Fin maxChannels} {q : Parameter}
  {p : Param.Setting} {o o' : Axis.Options}

theorem sends_of_mem_calls (q : Parameter) (slave : Position) (channel : Fin maxChannels)
    (v : Param.Value) : ∀ call ∈ q.calls slave channel v, call.Sends := by
  intro call hcall
  obtain ⟨x, -, hcall⟩ := List.mem_flatMap.1 hcall
  rcases List.mem_pair.1 hcall with rfl | rfl <;> trivial

/-- What a parameter writes to a cell. -/
def write (slave : Position) (channel : Fin maxChannels) (v : Param.Value) (q : Parameter)
    (k : Cell) : Option k.Content :=
  if q.Owns slave channel k then
    some (k.view (q.change channel v { channels := 0 }) (q.calls slave channel v).reverse)
  else none

theorem isSome_write_iff {slave : Position} {v : Param.Value} {k : Cell} :
    (q.write slave channel v k).isSome ↔ q.Owns slave channel k := by
  unfold write
  split
  · next h => simp [h]
  · next h => simp [h]

theorem view_of_result_apply {w w' : Workspace (Traced μ)}
    (h : (q.apply site channel o p).result w = (.ok o', w')) (k : Cell) :
    k.view o' w'.master.calls =
      (q.write site.position channel p.value k).getD (k.view o w.master.calls) := by
  obtain ⟨hv, -, rfl, rfl⟩ := result_apply_eq_ok_iff.1 h
  rw [Workspace.after, Master.behind_traced, write]
  split
  · next hk =>
    rw [Option.getD_some, view_of_owns hv hk o { channels := 0 } w.master.calls [],
      List.append_nil]
  · next hk => exact view_of_not_owns hv hk o w.master.calls

end Parameter

namespace DeviceType

variable {μ : Type} [Master μ] {t : DeviceType} {site : Site} {o o' : Axis.Options}
  {ps qs : List Param.Setting} {aim : Param.Setting → Parameter × Fin maxChannels}
  (haim : ∀ p ∈ ps, t.Aims p (aim p).1 (aim p).2)

include haim

theorem view_of_result_settings {w w' : Workspace (Traced μ)}
    (h : (ps.foldlM (t.apply site) o).result w = (.ok o', w')) (k : Cell) :
    k.view o' w'.master.calls =
      ps.foldl (fun x p => ((aim p).1.write site.position (aim p).2 p.value k).getD x)
        (k.view o w.master.calls) := by
  induction ps generalizing o w with
  | nil =>
    obtain ⟨rfl, rfl⟩ := Action.result_pure_eq_ok_iff.1 h
    rfl
  | cons p ps ih =>
    obtain ⟨hp, hps⟩ := List.forall_mem_cons.1 haim
    rw [List.foldlM_cons, Action.result_bind_eq_ok_iff] at h
    obtain ⟨o₁, w₁, happly, h⟩ := h
    rw [hp.apply_eq] at happly
    rw [ih hps h, Parameter.view_of_result_apply happly k, List.foldl_cons]

/-- Settings that were applied have values that their parameters take. -/
theorem admits_of_result_settings {w w' : Workspace μ}
    (h : (ps.foldlM (t.apply site) o).result w = (.ok o', w')) :
    ∀ p ∈ ps, (aim p).1.Admits p.value := by
  induction ps generalizing o w with
  | nil => exact List.forall_mem_nil _
  | cons p ps ih =>
    obtain ⟨hp, hps⟩ := List.forall_mem_cons.1 haim
    rw [List.foldlM_cons, Action.result_bind_eq_ok_iff] at h
    obtain ⟨o₁, w₁, happly, h⟩ := h
    rw [hp.apply_eq, Parameter.result_apply_eq_ok_iff] at happly
    exact List.forall_mem_cons.2 ⟨happly.1, ih hps h⟩

/-- On a master that takes all, settings with such values are applied. -/
theorem exists_result_settings (hadmits : ∀ p ∈ ps, (aim p).1.Admits p.value)
    {w : Workspace μ} (hw : Master.Accepts w.master) (o : Axis.Options) :
    ∃ o' w', (ps.foldlM (t.apply site) o).result w = (.ok o', w') := by
  induction ps generalizing o w with
  | nil => exact ⟨o, w, rfl⟩
  | cons p ps ih =>
    obtain ⟨hp, hps⟩ := List.forall_mem_cons.1 haim
    obtain ⟨hv, hvs⟩ := List.forall_mem_cons.1 hadmits
    generalize aim p = x at hp hv
    obtain ⟨q, channel⟩ := x
    have hcalls := q.sends_of_mem_calls site.position channel p.value
    have happly : (t.apply site o p).result w = (.ok (q.change channel p.value o),
        w.after (q.calls site.position channel p.value)) := by
      rw [hp.apply_eq, Parameter.result_apply_eq_ok_iff]
      exact ⟨hv, hw _ hcalls, rfl, rfl⟩
    have hnext : Master.Accepts (w.after (q.calls site.position channel p.value)).master := by
      intro calls hsends
      have hall := hw _ (List.forall_mem_append.2 ⟨hcalls, hsends⟩)
      exact (Master.takes_append_iff.1 hall).2
    obtain ⟨o', w', h⟩ := ih hps hvs hnext (q.change channel p.value o)
    refine ⟨o', w', ?_⟩
    rw [List.foldlM_cons, Action.result_bind_eq_ok_iff]
    exact ⟨_, _, happly, h⟩

theorem owned_write (table : t.Table) (slave : Position) (k : Cell) :
    Param.Setting.Owned (fun p => (aim p).1.write slave (aim p).2 p.value k) ps := by
  intro p hp q hq hsome
  rw [Parameter.isSome_write_iff] at hsome ⊢
  rw [(haim p hp).id_eq_iff (haim q hq)]
  constructor
  · intro hq'
    exact (haim p hp).eq_of_owns table (haim q hq) hsome hq'
  · rintro ⟨hparam, hchannel⟩
    rwa [hparam, hchannel]

end DeviceType

/-- Options that differ at most in what was sent before the last time. -/
structure Axis.Options.Matches (o o' : Axis.Options) : Prop where
  device : { o' with channel := o.channel } = o
  channel : ∀ ch, { o'.channel.get ch with sent := [] } = { o.channel.get ch with sent := [] }
  sent_eq : ∀ ch offset subindex,
    (o'.channel.get ch).sent? offset subindex = (o.channel.get ch).sent? offset subindex

/-- Options match if all of their cells do. -/
theorem Axis.Options.matches_of_view {o o' : Axis.Options} {calls calls' : List MasterCall}
    (h : ∀ k : Cell, k.view o' calls' = k.view o calls) : o.Matches o' where
  device := by
    have hchannels : o'.channels = o.channels := h (.device .channels)
    have houtput : o'.outputLimit = o.outputLimit := h (.device .outputLimit)
    have hinput : o'.inputLimit = o.inputLimit := h (.device .inputLimit)
    have hincrement : o'.increment = o.increment := UInt16.toNat_inj.1 (h (.device .increment))
    have hautoflow : o'.autoflow = o.autoflow := by
      have htoNat : o'.autoflow.toNat = o.autoflow.toNat := h (.device .autoflow)
      rw [Bool.eq_iff_iff, ← Bool.toNat_eq_one, htoNat, Bool.toNat_eq_one]
    have hpdos : o'.pdoLimit = o.pdoLimit := h (.device .pdoLimit)
    have hentries : o'.pdoEntryLimit = o.pdoEntryLimit := h (.device .pdoEntryLimit)
    rw [hchannels, houtput, hinput, hincrement, hautoflow, hpdos, hentries]
  channel ch := by
    have hrequested : (o'.channel.get ch).requested = (o.channel.get ch).requested := by
      refine FeatureSet.ext_iff_mem.2 fun f => ?_
      exact iff_of_eq (congrArg (· = true) (h (.feature ch f)))
    have hrest := h (.rest ch)
    dsimp only [Cell.view] at hrest
    have hall := congrArg (fun c : Axis.ChannelOptions =>
      { c with requested := (o.channel.get ch).requested }) hrest
    dsimp only at hall ⊢
    rw [hrequested]
    exact hall
  sent_eq ch offset subindex := h (.record ch offset subindex)

namespace Registry

/-- If parsed settings of a bundled device are applied with success by a master that takes all
that is sent, then so are the latest of each number, in any order, and with the same end. -/
theorem Bundled.matches_of_latest {μ : Type} [Master μ] {r : Registry} (hr : r.Bundled)
    {t : DeviceType} (ht : t ∈ r.types) {site : Site} {given : List (String × String)}
    {ps : List Param.Setting}
    (hps : (Param.Setting.readAll site.device t.declarations given).outcome = .ok ps)
    {o o' : Axis.Options} {w w' : Workspace (Traced μ)} (hw : Master.Accepts w.master)
    (h : (ps.foldlM (t.apply site) o).result w = (.ok o', w')) {qs : List Param.Setting}
    (hqs : qs.Perm (Param.Setting.latest ps)) :
    ∃ o'' w'', (qs.foldlM (t.apply site) o).result w = (.ok o'', w'') ∧ o'.Matches o'' ∧
      ∀ slave a, lastSent? slave a w''.master.calls = lastSent? slave a w'.master.calls := by
  obtain ⟨table⟩ := hr.nonempty_table ht
  have hmade := Param.Setting.forall₂_of_outcome_readAll hps
  have haims : ∀ p ∈ ps, ∃ x : Parameter × Fin maxChannels, t.Aims p x.1 x.2 := by
    intro p hp
    obtain ⟨given, -, hp⟩ := exists_left_of_forall₂ hmade hp
    obtain ⟨q, channel, hq⟩ := table.exists_aims hp
    exact ⟨(q, channel), hq⟩
  have : Nonempty (Parameter × Fin maxChannels) := ⟨.drive .channels, ⟨0, by decide⟩⟩
  choose! aim haim using haims
  have hsub : qs ⊆ ps := fun q hq => (Param.Setting.latest_sublist ps).subset (hqs.subset hq)
  have hadmits := DeviceType.admits_of_result_settings haim h
  obtain ⟨o'', w'', h'⟩ := DeviceType.exists_result_settings (fun q hq => haim q (hsub hq))
    (fun q hq => hadmits q (hsub hq)) hw o
  have hview (k : Cell) : k.view o'' w''.master.calls = k.view o' w'.master.calls := by
    rw [DeviceType.view_of_result_settings (fun q hq => haim q (hsub hq)) h' k,
      DeviceType.view_of_result_settings haim h k]
    exact Param.Setting.foldl_perm_latest (DeviceType.owned_write haim table site.position k)
      hqs _
  exact ⟨o'', w'', h', Axis.Options.matches_of_view hview, fun slave a => hview (.object slave a)⟩

/-- The bench takes all that is sent. -/
theorem accepts_bench (m : Traced Bench) : Master.Accepts m := by
  intro calls _ a ha
  rw [Master.answers_traced] at ha
  exact Slave.fault?_of_mem_answers_bench ha

/-- Settings of a drive with two axes. The homing method of the first axis is set twice. -/
def homings : List (String × String) :=
  [("homeMethod", "35"), ("ch2homeMethod", "1"), ("enableHomeMethod", "true"),
    ("ch1homeMethod", "17")]

/-- Without the first of these settings, and the other way round, the drive gets the same. -/
theorem matches_of_latest_homings : ∃ t ps o o',
    bundled.types.find? (·.name == "2CS3E-D507") = some t ∧
    (Param.Setting.readAll Axis.benchSite.device t.declarations homings).outcome = .ok ps ∧
    (Param.Setting.latest ps).map (·.name) =
      ["ch2homeMethod", "enableHomeMethod", "ch1homeMethod"] ∧
    ∃ w w', (ps.foldlM (t.apply Axis.benchSite) { channels := 2 }).result Axis.benchWorkspace =
        (.ok o, w) ∧
      lastSent? 3 ⟨0x6098, 0⟩ w.master.calls = some [17] ∧
      ((Param.Setting.latest ps).reverse.foldlM (t.apply Axis.benchSite)
          { channels := 2 }).result Axis.benchWorkspace = (.ok o', w') ∧
      o.Matches o' ∧
      ∀ slave a, lastSent? slave a w'.master.calls = lastSent? slave a w.master.calls := by
  have hrun : ((bundled.types.find? (·.name == "2CS3E-D507")).bind fun t =>
      (Param.Setting.readAll Axis.benchSite.device t.declarations homings).outcome.toOption.map
        fun ps =>
          let end? := (ps.foldlM (t.apply Axis.benchSite) { channels := 2 }).result
            Axis.benchWorkspace
          ((Param.Setting.latest ps).map (·.name), end?.1.isOk,
            lastSent? 3 ⟨0x6098, 0⟩ end?.2.master.calls)) =
      some (["ch2homeMethod", "enableHomeMethod", "ch1homeMethod"], true, some [17]) := by
    decide +kernel
  obtain ⟨t, ht, hmap⟩ := Option.bind_eq_some_iff.1 hrun
  obtain ⟨ps, hps, hend⟩ := Option.map_eq_some_iff.1 hmap
  replace hps := Action.eq_ok_of_toOption hps
  simp only [Prod.mk.injEq] at hend
  obtain ⟨hnames, hok, hsent⟩ := hend
  rcases hresult : (ps.foldlM (t.apply Axis.benchSite) { channels := 2 }).result
    Axis.benchWorkspace with ⟨e | o, w⟩
  · rw [hresult] at hok
    cases hok
  · rw [hresult] at hsent
    obtain ⟨o', w', hlatest, hmatches, hstored⟩ := bundled_bundled.matches_of_latest
      (List.mem_of_find?_eq_some ht) hps (accepts_bench _) hresult (List.reverse_perm _)
    exact ⟨t, ps, o, o', ht, hps, hnames, w, w', hresult, hsent, hlatest, hmatches, hstored⟩

end Registry

end ServoBus
