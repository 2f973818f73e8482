import ServoBus.Proofs.Device.Bundled
import ServoBus.Proofs.Device.Parameters

/-!
# Declared parameters

The declarations of a device type are made from a table: its own parameters, and those that are
spread over the channels. For the device types of the library every name in the table is that of
one parameter of the family, and each parameter keeps its number free for the channel. So every
declared name denotes one parameter and one channel (`Table.exists_denotes` and
`Table.denotes_inj`), and the declared number is that of both.
-/

namespace ServoBus

open Param (Bare Declaration maxChannels)

namespace Axis

/-- What is declared, and for how many channels. -/
def table (device perChannel : List Declaration) (channels : Nat) : List (Declaration × Nat) :=
  device.map (·, 0) ++ (perChannel ++ axisDeclarations).map (·, channels)

theorem names_table (device perChannel : List Declaration) (channels : Nat) :
    (table device perChannel channels).map (·.1.name) =
      (device ++ perChannel ++ axisDeclarations).map (·.name) := by
  simp [table, Function.comp_def]

/-- Declarations that could be made are those of a table, for not too many channels. -/
theorem declarations_eq_ok {device perChannel ds : List Declaration} {channels : Nat}
    (h : declarations device perChannel channels = .ok ds) :
    channels ≤ maxChannels ∧
      ds = (table device perChannel channels).flatMap fun x => x.1.spread x.2 := by
  unfold declarations Param.perChannel at h
  split at h
  · cases h
  · next hle =>
    cases h
    refine ⟨Nat.le_of_not_lt hle, ?_⟩
    have hdevice : (device.map (·, 0)).flatMap (fun x => x.1.spread x.2) = device := by
      simp [List.flatMap_map, Declaration.spread]
    have hchannels : ((perChannel ++ axisDeclarations).map (·, channels)).flatMap
        (fun x => x.1.spread x.2) =
          (perChannel ++ axisDeclarations).flatMap (·.spread channels) :=
      List.flatMap_map ..
    refine Eq.trans ?_ List.flatMap_append.symm
    rw [hdevice, hchannels]

/-- An axis declares its parameters. -/
theorem exists_of_mem_axisDeclarations {d : Declaration} (hd : d ∈ axisDeclarations) :
    ∃ q ∈ Parameter.axis, q.name = d.name ∧ q.id = d.id ∧ q.hasChannels = true := by
  simp only [axisDeclarations, List.mem_append, List.mem_map] at hd
  simp only [Parameter.axis, List.mem_append, List.mem_map]
  rcases hd with (⟨q, hq, rfl⟩ | ⟨q, hq, rfl⟩) | ⟨f, hf, rfl⟩
  · exact ⟨.object q, .inl (.inl ⟨q, hq, rfl⟩), rfl, rfl, rfl⟩
  · exact ⟨.ratio q, .inl (.inr ⟨q, hq, rfl⟩), rfl, rfl, rfl⟩
  · exact ⟨.enable f, .inr ⟨f, hf, rfl⟩, rfl, rfl, rfl⟩

/-- The names that devices and axes declare. All facts about names are decided for this list. -/
def names : List String :=
  (Generic.driveDeclarations ++ Stepper.closedLoopDeclarations ++ axisDeclarations).map (·.name)

theorem bare_of_mem_names : ∀ name ∈ names, Bare name := by
  decide +kernel

theorem nodup_names : names.Nodup := by
  decide +kernel

theorem mem_names_of_mem_axis {q : Parameter} (hq : q ∈ Parameter.axis) : q.name ∈ names := by
  suffices hd : ∃ d ∈ axisDeclarations, d.name = q.name by
    obtain ⟨d, hd, hname⟩ := hd
    exact hname ▸ List.mem_map_of_mem (List.mem_append_right _ hd)
  simp only [Parameter.axis, List.mem_append, List.mem_map] at hq
  simp only [axisDeclarations, List.mem_append, List.mem_map]
  rcases hq with (⟨q, hq, rfl⟩ | ⟨q, hq, rfl⟩) | ⟨f, hf, rfl⟩
  · exact ⟨_, .inl (.inl ⟨q, hq, rfl⟩), rfl⟩
  · exact ⟨_, .inl (.inr ⟨q, hq, rfl⟩), rfl⟩
  · exact ⟨_, .inr ⟨f, hf, rfl⟩, rfl⟩

/-- No parameter has a name that begins as that of a channel does. -/
theorem bare_name {family : Family} {q : Parameter} (hq : q ∈ family.parameters) :
    Bare q.name := by
  refine bare_of_mem_names _ ?_
  cases family with
  | generic =>
    rcases List.mem_append.1 hq with hq | hq
    · obtain ⟨q, -, rfl⟩ := List.mem_map.1 hq
      refine List.map_subset _ (List.subset_append_left ..) ?_
      cases q <;> decide
    · exact mem_names_of_mem_axis hq
  | stepper =>
    rcases List.mem_append.1 hq with hq | hq
    · obtain ⟨q, -, rfl⟩ := List.mem_map.1 hq
      refine List.map_subset _ (List.subset_append_left ..) ?_
      cases q <;> decide
    · exact mem_names_of_mem_axis hq

/-- A device and its channels declare parameters of a family, each under its name. -/
structure Declares (family : Family) (device perChannel : List Declaration) : Prop where
  names : ((device ++ perChannel).map (·.name)).Sublist
    ((Generic.driveDeclarations ++ Stepper.closedLoopDeclarations).map (·.name))
  device : ∀ d ∈ device, ∃ q ∈ family.parameters, q.name = d.name ∧ q.id = d.id
  perChannel : ∀ d ∈ perChannel, ∃ q ∈ family.parameters,
    q.name = d.name ∧ q.id = d.id ∧ q.hasChannels = true

theorem Declares.sublist_names {family : Family} {device perChannel : List Declaration}
    (h : Declares family device perChannel) :
    ((device ++ perChannel ++ axisDeclarations).map (·.name)).Sublist Axis.names := by
  have hnames := h.names.append_right (axisDeclarations.map (·.name))
  rwa [← List.map_append, ← List.map_append] at hnames

theorem declares_generic : Declares .generic Generic.driveDeclarations [] where
  names := by decide +kernel
  device := by decide +kernel
  perChannel := List.forall_mem_nil _

theorem declares_stepper (closedLoop : Bool) : Declares .stepper []
    (if closedLoop then Stepper.closedLoopDeclarations else Stepper.openLoopDeclarations) where
  names := by cases closedLoop <;> decide +kernel
  device := List.forall_mem_nil _
  perChannel := by cases closedLoop <;> decide +kernel

end Axis

namespace DeviceType

/-- The table from which a device type makes its declarations. -/
structure Table (t : DeviceType) where
  rows : List (Declaration × Nat)
  declarations_eq : t.declarations = rows.flatMap fun x => x.1.spread x.2
  le : ∀ x ∈ rows, x.2 ≤ maxChannels
  bare : ∀ x ∈ rows, Bare x.1.name
  nodup : (rows.map (·.1.name)).Nodup
  parameter : ∀ x ∈ rows, ∃ q ∈ t.family.parameters,
    q.name = x.1.name ∧ q.id = x.1.id ∧ (q.hasChannels = true ∨ x.2 = 0)

/-- The table of what a device and its channels declare. -/
def Table.ofDeclares {t : DeviceType} {device perChannel : List Declaration} {channels : Nat}
    (h : Axis.Declares t.family device perChannel)
    (hd : Axis.declarations device perChannel channels = .ok t.declarations) : t.Table where
  rows := Axis.table device perChannel channels
  declarations_eq := (Axis.declarations_eq_ok hd).2
  le x hx := by
    rcases List.mem_append.1 hx with hx | hx
    · obtain ⟨d, -, rfl⟩ := List.mem_map.1 hx
      exact Nat.zero_le _
    · obtain ⟨d, -, rfl⟩ := List.mem_map.1 hx
      exact (Axis.declarations_eq_ok hd).1
  bare x hx := by
    refine Axis.bare_of_mem_names _ (h.sublist_names.subset ?_)
    rw [← Axis.names_table device perChannel channels]
    exact List.mem_map_of_mem hx
  nodup := by
    rw [Axis.names_table]
    exact Axis.nodup_names.sublist h.sublist_names
  parameter x hx := by
    rcases List.mem_append.1 hx with hx | hx
    · obtain ⟨d, hd, rfl⟩ := List.mem_map.1 hx
      obtain ⟨q, hq, hname, hid⟩ := h.device d hd
      exact ⟨q, hq, hname, hid, .inr rfl⟩
    · obtain ⟨d, hd, rfl⟩ := List.mem_map.1 hx
      rcases List.mem_append.1 hd with hd | hd
      · obtain ⟨q, hq, hname, hid, hchannels⟩ := h.perChannel d hd
        exact ⟨q, hq, hname, hid, .inl hchannels⟩
      · obtain ⟨q, hq, hname, hid, hchannels⟩ := Axis.exists_of_mem_axisDeclarations hd
        exact ⟨q, t.family.axis_subset hq, hname, hid, .inl hchannels⟩

end DeviceType

theorem Generic.nonempty_table {t : DeviceType} (h : type = .ok t) : Nonempty t.Table := by
  obtain ⟨ds, hd, h⟩ := except_bind_eq_ok_iff.1 h
  cases h
  exact ⟨.ofDeclares Axis.declares_generic hd⟩

theorem Stepper.nonempty_table {m : Model} {t : DeviceType} (h : m.type = .ok t) :
    Nonempty t.Table := by
  obtain ⟨ds, hd, h⟩ := except_bind_eq_ok_iff.1 h
  cases h
  exact ⟨.ofDeclares (Axis.declares_stepper m.closedLoop) hd⟩

theorem Stepper.nonempty_table_of_mem {ms : List Model} {types : List DeviceType}
    (h : ms.mapM Model.type = .ok types) {t : DeviceType} (ht : t ∈ types) :
    Nonempty t.Table := by
  induction ms generalizing types with
  | nil =>
    cases h
    cases ht
  | cons m ms ih =>
    rw [List.mapM_cons] at h
    obtain ⟨first, hfirst, h⟩ := except_bind_eq_ok_iff.1 h
    obtain ⟨rest, hrest, h⟩ := except_bind_eq_ok_iff.1 h
    cases h
    rcases List.mem_cons.1 ht with rfl | ht
    · exact nonempty_table hfirst
    · exact ih hrest ht

theorem Registry.Bundled.nonempty_table {r : Registry} (hr : r.Bundled) {t : DeviceType}
    (ht : t ∈ r.types) : Nonempty t.Table := by
  obtain ⟨types, hbuiltin, hsub⟩ := hr
  obtain ⟨generic, hgeneric, h⟩ := except_bind_eq_ok_iff.1 hbuiltin
  obtain ⟨steppers, hsteppers, h⟩ := except_bind_eq_ok_iff.1 h
  cases h
  rcases List.mem_cons.1 (hsub ht) with rfl | ht
  · exact Generic.nonempty_table hgeneric
  · exact Stepper.nonempty_table_of_mem hsteppers ht

namespace DeviceType

variable {t : DeviceType}

theorem Table.nodup_names (table : t.Table) : (t.declarations.map (·.name)).Nodup := by
  rw [table.declarations_eq]
  exact Param.nodup_names table.bare table.le table.nodup

/-- The name and the number of a declaration are those of one parameter and one channel. -/
theorem Table.exists_denotes (table : t.Table) {d : Declaration} (hd : d ∈ t.declarations) :
    ∃ q channel, t.Denotes d.name q channel ∧ d.id = q.id + UInt32.ofNat channel.val ∧
      (q.hasChannels = true ∨ channel.val = 0) := by
  have hmem := hd
  rw [table.declarations_eq, List.mem_flatMap] at hmem
  obtain ⟨x, hx, hd'⟩ := hmem
  obtain ⟨q, hq, hname, hid, hchannels⟩ := table.parameter x hx
  have hdeclared : ∃ d ∈ t.declarations, d.name = q.name ∧ d.id = q.id := by
    refine ⟨x.1, ?_, hname.symm, hid.symm⟩
    rw [table.declarations_eq]
    exact List.mem_flatMap_of_mem hx (List.mem_cons_self ..)
  rcases (Declaration.mem_spread_iff (table.le x hx)).1 hd' with rfl | ⟨channel, hlt, rfl⟩
  · refine ⟨q, ⟨0, by decide⟩, ⟨hq, hdeclared, .inl ⟨hname.symm, rfl⟩⟩, ?_, .inr rfl⟩
    rw [hid]
    exact (UInt32.add_zero _).symm
  · have hq' : q.hasChannels = true := hchannels.resolve_right (by omega)
    refine ⟨q, channel, ⟨hq, hdeclared, .inr ⟨hq', ?_⟩⟩, ?_, .inl hq'⟩
    · rw [hname]
      rfl
    · rw [hid]
      rfl

theorem Denotes.snd_parts {name : String} {q : Parameter} {channel : Fin maxChannels}
    (h : t.Denotes name q channel) : (Param.parts name).2 = q.name.toList := by
  rcases h.name_eq with ⟨rfl, -⟩ | ⟨-, rfl⟩
  · rw [Param.parts_of_bare (Axis.bare_name h.mem)]
  · rw [Param.parts_channel]

/-- A name denotes one parameter and one channel at most. -/
theorem Table.denotes_inj (table : t.Table) {name : String} {q q' : Parameter}
    {channel channel' : Fin maxChannels} (h : t.Denotes name q channel)
    (h' : t.Denotes name q' channel') : q' = q ∧ channel' = channel := by
  have hname : q'.name = q.name := String.toList_inj.1 (h'.snd_parts.symm.trans h.snd_parts)
  have hq : q' = q := by
    obtain ⟨d, hd, hdname, hdid⟩ := h.declared
    obtain ⟨d', hd', hdname', hdid'⟩ := h'.declared
    have heq : d' = d := List.inj_on_of_nodup_map table.nodup_names hd' hd <| by
      rw [hdname, hdname', hname]
    exact Parameter.eq_of_id_eq h'.mem h.mem (by rw [← hdid, ← hdid', heq])
  subst hq
  have hbare := Param.parts_of_bare (Axis.bare_name h.mem)
  refine ⟨rfl, ?_⟩
  -- a name without a channel has no digit, and another digit is that of another channel
  rcases h.name_eq with ⟨rfl, hzero⟩ | ⟨-, rfl⟩
  · rcases h'.name_eq with ⟨-, hzero'⟩ | ⟨-, hchannel'⟩
    · exact Fin.ext (hzero'.trans hzero.symm)
    · rw [hchannel', Param.parts_channel] at hbare
      exact absurd (congrArg Prod.fst hbare) (Param.digit_ne_zero channel')
  · rcases h'.name_eq with ⟨hchannel, -⟩ | ⟨-, hchannel'⟩
    · rw [← hchannel, Param.parts_channel] at hbare
      exact absurd (congrArg Prod.fst hbare) (Param.digit_ne_zero channel)
    · have hparts := congrArg Param.parts hchannel'
      rw [Param.parts_channel, Param.parts_channel] at hparts
      exact (Param.digit_inj (congrArg Prod.fst hparts)).symm

end DeviceType

end ServoBus
