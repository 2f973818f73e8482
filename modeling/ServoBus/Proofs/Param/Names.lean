import Mathlib.Data.List.Nodup
import ServoBus.Param.Channel
import ServoBus.Proofs.Action.Success

/-!
# Names and numbers of parameters

The declarations of a drive come from a table: some of them are for the drive as a whole, and
the others are spread over its channels. If no name in the table begins as one with a channel
does, a channel and a name can be told from each other, so all names are different and each of
them is found where it was declared. The channel of a number is what is added to a number that
has room for it.
-/

namespace ServoBus.Param

/-- The channel of a name, as a digit that is zero if there is none, and what follows it. -/
def parts (name : String) : Char × List Char :=
  match name.toList with
  | 'c' :: 'h' :: digit :: rest => (digit, rest)
  | cs => ('0', cs)

/-- The name does not begin as one with a channel does. -/
def Bare (name : String) : Prop := name.toList.take 2 ≠ ['c', 'h']

instance (name : String) : Decidable (Bare name) := inferInstanceAs (Decidable (_ ≠ _))

theorem parts_of_bare {name : String} (h : Bare name) : parts name = ('0', name.toList) := by
  unfold parts
  split
  · next digit rest heq =>
    rw [Bare, heq] at h
    exact absurd rfl h
  · rfl

/-- The digit of a channel in a name. -/
def digit (channel : Fin maxChannels) : Char := Char.ofNat (49 + channel)

theorem digit_ne_zero : ∀ channel, digit channel ≠ '0' := by decide

theorem digit_inj : ∀ {channel channel'}, digit channel = digit channel' → channel = channel' := by
  decide

theorem parts_channel (name : String) (channel : Fin maxChannels) :
    parts s!"ch{channel.val + 1}{name}" = (digit channel, name.toList) := by
  have htoList : (s!"ch{channel.val + 1}{name}").toList =
      'c' :: 'h' :: ((toString (channel.val + 1)).toList ++ name.toList) := by
    change ("ch" ++ toString (channel.val + 1) ++ name).toList = _
    rw [String.toList_append, String.toList_append]
    rfl
  have hdigit : ∀ channel : Fin maxChannels,
      (toString (channel.val + 1)).toList = [digit channel] := by
    decide
  rw [parts, htoList, hdigit]
  rfl

namespace Declaration

variable {d : Declaration} {channels : Nat}

/-- A declaration that was spread is the one it comes from, or that of a channel. -/
theorem mem_spread_iff (hle : channels ≤ maxChannels) {e : Declaration} :
    e ∈ d.spread channels ↔
      e = d ∨ ∃ channel : Fin maxChannels, channel.val < channels ∧ e = d.forChannel channel := by
  rw [spread, List.mem_cons, List.mem_map]
  refine or_congr_right ⟨?_, ?_⟩
  · rintro ⟨k, hk, rfl⟩
    have hk := List.mem_range.1 hk
    exact ⟨⟨k, Nat.lt_of_lt_of_le hk hle⟩, hk, rfl⟩
  · rintro ⟨channel, hlt, rfl⟩
    exact ⟨channel, List.mem_range.2 hlt, rfl⟩

theorem nodup_parts_spread (h : Bare d.name) (hle : channels ≤ maxChannels) :
    ((d.spread channels).map fun d => parts d.name).Nodup := by
  have hparts {k : Nat} (hk : k ∈ List.range channels) :
      ∃ channel : Fin maxChannels, channel.val = k ∧
        parts (d.forChannel k).name = (digit channel, d.name.toList) :=
    ⟨⟨k, Nat.lt_of_lt_of_le (List.mem_range.1 hk) hle⟩, rfl, parts_channel d.name ⟨k, _⟩⟩
  rw [spread, List.map_cons, List.map_map, List.nodup_cons, parts_of_bare h]
  constructor
  · intro hmem
    obtain ⟨k, hk, heq⟩ := List.mem_map.1 hmem
    obtain ⟨channel, -, hchannel⟩ := hparts hk
    rw [Function.comp_apply, hchannel] at heq
    exact digit_ne_zero channel (congrArg Prod.fst heq)
  · refine List.Nodup.map_on ?_ List.nodup_range
    intro k hk l hl heq
    obtain ⟨channel, rfl, hchannel⟩ := hparts hk
    obtain ⟨channel', rfl, hchannel'⟩ := hparts hl
    rw [Function.comp_apply, Function.comp_apply, hchannel, hchannel'] at heq
    rw [digit_inj (congrArg Prod.fst heq)]

/-- All names of one declaration go on with the name itself. -/
theorem snd_parts_of_mem_spread (h : Bare d.name) (hle : channels ≤ maxChannels)
    {e : Declaration} (he : e ∈ d.spread channels) : (parts e.name).2 = d.name.toList := by
  rcases (mem_spread_iff hle).1 he with rfl | ⟨channel, -, rfl⟩
  · rw [parts_of_bare h]
  · exact congrArg Prod.snd (parts_channel d.name channel)

end Declaration

/-- Names of different declarations in a table stay different when they are spread. -/
theorem nodup_names {table : List (Declaration × Nat)} (hbare : ∀ x ∈ table, Bare x.1.name)
    (hle : ∀ x ∈ table, x.2 ≤ maxChannels) (hnodup : (table.map (·.1.name)).Nodup) :
    ((table.flatMap fun x => x.1.spread x.2).map (·.name)).Nodup := by
  -- names are different as soon as their parts are
  refine List.Nodup.of_map parts ?_
  rw [List.map_map, List.map_flatMap, List.nodup_flatMap]
  refine ⟨fun x hx => x.1.nodup_parts_spread (hbare x hx) (hle x hx), ?_⟩
  refine (List.pairwise_map.1 hnodup).imp_of_mem fun {x y} hx hy hne => ?_
  intro q hq hq'
  obtain ⟨e, he, rfl⟩ := List.mem_map.1 hq
  obtain ⟨e', he', heq⟩ := List.mem_map.1 hq'
  have hsnd := congrArg Prod.snd heq
  rw [Function.comp_apply, Function.comp_apply,
    Declaration.snd_parts_of_mem_spread (hbare x hx) (hle x hx) he,
    Declaration.snd_parts_of_mem_spread (hbare y hy) (hle y hy) he'] at hsnd
  exact hne (String.toList_inj.1 hsnd).symm

theorem find?_eq_some_iff {declarations : List Declaration}
    (h : (declarations.map (·.name)).Nodup) {name : String} {d : Declaration} :
    find? declarations name = some d ↔ d ∈ declarations ∧ d.name = name := by
  constructor
  · intro hfind
    exact ⟨List.mem_of_find?_eq_some hfind, by simpa using List.find?_some hfind⟩
  · rintro ⟨hd, rfl⟩
    cases hfind : find? declarations d.name with
    | none =>
      have hno := List.find?_eq_none.1 hfind d hd
      simp at hno
    | some e =>
      have hname : e.name = d.name := by simpa using List.find?_some hfind
      rw [List.inj_on_of_nodup_map h (List.mem_of_find?_eq_some hfind) hd hname]

namespace Setting

variable {device : String} {declarations : List Declaration}

/-- A setting is made from the declaration that its name finds, and a text. -/
def MadeFrom (declarations : List Declaration) (given : String × String) (p : Setting) : Prop :=
  ∃ d, find? declarations given.1 = some d ∧ p.id = d.id ∧ p.name = given.1 ∧
    Value.ofText? d.kind given.2 = some p.value

theorem outcome_read_eq_ok {given : String × String} {p : Setting}
    (h : (read device declarations given.1 given.2).outcome = .ok p) :
    MadeFrom declarations given p := by
  unfold read at h
  split at h
  · cases h
  · next d hd =>
    split at h
    · cases h
    · next v hv =>
      cases h
      exact ⟨d, hd, rfl, rfl, hv⟩

/-- Settings are made in the order of what is given. -/
theorem forall₂_of_outcome_readAll {given : List (String × String)} {settings : List Setting}
    (h : (readAll device declarations given).outcome = .ok settings) :
    List.Forall₂ (MadeFrom declarations) given settings := by
  induction given generalizing settings with
  | nil =>
    cases h
    exact .nil
  | cons x given ih =>
    rw [readAll, List.mapM_cons, Checked.outcome_bind_eq_ok_iff] at h
    obtain ⟨p, hp, h⟩ := h
    obtain ⟨rest, hrest, h⟩ := Checked.outcome_bind_eq_ok_iff.1 h
    cases h
    exact .cons (outcome_read_eq_ok hp) (ih hrest)

end Setting

section Numbers

variable {id : UInt32} (hid : id.toNat % maxChannels = 0) (channel : Fin maxChannels)

include hid

theorem toNat_add_channel : (id + UInt32.ofNat channel).toNat = id.toNat + channel := by
  have hlt := id.toNat_lt
  have hchannel := channel.isLt
  simp only [maxChannels] at hid hchannel
  rw [UInt32.toNat_add, UInt32.toNat_ofNat_of_lt' (by simp only [UInt32.size]; omega)]
  omega

theorem channelOf_add : channelOf (id + UInt32.ofNat channel) = channel := by
  refine Fin.ext ?_
  change (id + UInt32.ofNat channel).toNat % maxChannels = channel
  rw [toNat_add_channel hid, Nat.add_mod, hid, Nat.zero_add, Nat.mod_mod]
  exact Nat.mod_eq_of_lt channel.isLt

theorem commonOf_add : commonOf (id + UInt32.ofNat channel) = id := by
  rw [← UInt32.toNat_inj, toNat_commonOf, channelOf_add hid, toNat_add_channel hid]
  exact Nat.add_sub_cancel ..

end Numbers

theorem channelOf_ofNat (channel : Fin maxChannels) :
    channelOf (UInt32.ofNat channel) = channel := by
  have h : channelOf (0 + UInt32.ofNat channel) = channel := channelOf_add rfl channel
  rwa [UInt32.zero_add] at h

end ServoBus.Param
