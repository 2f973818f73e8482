import ServoBus.Proofs.Param.Names

/-!
# Tables for several channels

A table for several channels consists of blocks of one length: each declaration of the table for
one, and behind it those for the single channels. Where an entry stands therefore tells from which
declaration and for which channel it is. Its number tells the same, apart from the second name of
the first channel, since the numbers of the declarations have room for a channel. Its name tells
it too, unless a declaration is named as another one is for a channel.
-/

namespace ServoBus.Param

theorem getElem?_flatMap_of_length_eq {α β : Type} {l : List α} {f : α → List β} {n i k : Nat}
    (h : ∀ a, (f a).length = n) (hk : k < n) :
    (l.flatMap f)[i * n + k]? = l[i]?.bind fun a => (f a)[k]? := by
  induction l generalizing i with
  | nil => rfl
  | cons a l ih =>
    rw [List.flatMap_cons]
    cases i with
    | zero =>
      rw [Nat.zero_mul, Nat.zero_add, List.getElem?_append_left (by rwa [h])]
      rfl
    | succ i =>
      rw [List.getElem?_append_right (by rw [h, Nat.succ_mul]; omega), h, List.getElem?_cons_succ,
        ← ih]
      congr 1
      rw [Nat.succ_mul]
      omega

section Numbers

variable {id id' : UInt32}

/-- Low bits that are clear are room for a channel. -/
theorem mod_maxChannels_of_and (h : id &&& 7 = 0) : id.toNat % maxChannels = 0 := by
  have htoNat := congrArg UInt32.toNat h
  rw [UInt32.toNat_and] at htoNat
  exact (Nat.and_two_pow_sub_one_eq_mod id.toNat 3).symm.trans htoNat

/-- A channel that is added to a number with room for it does not carry. -/
theorem add_channel_inj (hid : id.toNat % maxChannels = 0) (hid' : id'.toNat % maxChannels = 0)
    (channel channel' : Fin maxChannels) :
    id + UInt32.ofNat channel = id' + UInt32.ofNat channel' ↔ id = id' ∧ channel = channel' := by
  constructor
  · intro h
    have hcommon := congrArg commonOf h
    have hchannel := congrArg channelOf h
    rw [commonOf_add hid, commonOf_add hid'] at hcommon
    rw [channelOf_add hid, channelOf_add hid'] at hchannel
    exact ⟨hcommon, hchannel⟩
  · rintro ⟨rfl, rfl⟩
    rfl

end Numbers

namespace Declaration

variable {d d' : Declaration} {channels k k' : Nat}

theorem name_forChannel_inj (channel channel' : Fin maxChannels) :
    (d.forChannel channel).name = (d'.forChannel channel').name ↔
      channel = channel' ∧ d.name = d'.name := by
  constructor
  · intro h
    have hparts : parts (d.forChannel channel).name = parts (d'.forChannel channel').name :=
      congrArg parts h
    rw [forChannel, forChannel, parts_channel, parts_channel] at hparts
    obtain ⟨hdigit, hname⟩ := Prod.ext_iff.1 hparts
    exact ⟨digit_inj hdigit, String.toList_inj.1 hname⟩
  · rintro ⟨rfl, h⟩
    rw [forChannel, forChannel, h]

/-- The entries that a declaration gives, in their order: itself, and those for the channels. -/
def entry (d : Declaration) : Nat → Declaration
  | 0 => d
  | channel + 1 => d.forChannel channel

theorem spread_eq_map : d.spread channels = (List.range (channels + 1)).map d.entry := by
  rw [spread, List.range_succ_eq_map, List.map_cons, List.map_map]
  rfl

theorem mem_names_spread {name : String} :
    name ∈ (d.spread channels).map (·.name) ↔ ∃ k ≤ channels, (d.entry k).name = name := by
  simp only [spread_eq_map, List.map_map, List.mem_map, List.mem_range, Nat.lt_succ_iff,
    Function.comp_apply]

theorem getElem?_spread (hk : k ≤ channels) : (d.spread channels)[k]? = some (d.entry k) := by
  rw [spread_eq_map, List.getElem?_map, List.getElem?_range (Nat.lt_succ_of_le hk)]
  rfl

/-- The declaration itself has the number of the first channel. -/
theorem id_entry (d : Declaration) (k : Nat) :
    (d.entry k).id = d.id + UInt32.ofNat (k - 1) := by
  cases k with
  | zero => exact (UInt32.add_zero d.id).symm
  | succ channel => rfl

end Declaration

/-- No declaration has the name that another one has for a channel. -/
def Unshared (base : List Declaration) (channels : Nat) : Prop :=
  ∀ d ∈ base, ∀ other ∈ base, ∀ channel < channels,
    d.name ≠ s!"ch{channel + 1}{other.name}"

instance (base : List Declaration) (channels : Nat) : Decidable (Unshared base channels) :=
  inferInstanceAs (Decidable (∀ d ∈ base, ∀ other ∈ base, ∀ channel < channels, _ ≠ _))

/-- A table for several channels: in each block a declaration and then one for each channel, with
numbers that tell declarations and channels. -/
structure Multiplexed (base : List Declaration) (channels : Nat) (table : List Declaration) :
    Prop where
  length : table.length = base.length * (channels + 1)
  bare : ∀ i : Nat, table[i * (channels + 1)]? = base[i]?
  channel : ∀ (i : Nat) (d : Declaration), base[i]? = some d → ∀ channel < channels,
    ∃ e, table[i * (channels + 1) + (channel + 1)]? = some e ∧
      e.name = s!"ch{channel + 1}{d.name}" ∧ e.kind = d.kind ∧ e.default? = d.default? ∧
      e.comment? = d.comment? ∧ e.id.toNat = d.id.toNat + channel ∧
      (channelOf e.id).val = channel ∧ commonOf e.id = d.id
  /-- The first two entries of a block are for the first channel. -/
  ids : ∀ (i i' k k' : Nat) (e e' : Declaration), k ≤ channels → k' ≤ channels →
    table[i * (channels + 1) + k]? = some e → table[i' * (channels + 1) + k']? = some e' →
      (e.id = e'.id ↔ i = i' ∧ k - 1 = k' - 1)

namespace Declaration

/-- The setting that a text makes of the declaration. -/
def setting (d : Declaration) (text : String) : Except Fault Setting :=
  match Value.ofText? d.kind text with
  | none => .error (.invalidParam d.name text)
  | some v => .ok ⟨d.id, d.name, v⟩

theorem outcome_read {device text : String} {table : List Declaration} {e : Declaration}
    (h : find? table e.name = some e) :
    (Setting.read device table e.name text).outcome = e.setting text := by
  simp only [Setting.read, h, setting]
  cases Value.ofText? e.kind text with
  | none => rfl
  | some v => rfl

end Declaration

/-- In a table for several channels every name leads to its own entry, so settings are read by
their own declarations. -/
structure Resolved (base : List Declaration) (channels : Nat) (table : List Declaration) :
    Prop where
  names : (table.map (·.name)).Nodup
  find? : ∀ e ∈ table, find? table e.name = some e
  readAll : ∀ (device : String) (given : List (Declaration × String)),
    (∀ x ∈ given, x.1 ∈ table) →
      (Setting.readAll device table (given.map fun x => (x.1.name, x.2))).outcome =
        given.mapM fun x => x.1.setting x.2
  /-- The bare name is a second name for the first channel. -/
  first : 0 < channels → ∀ d ∈ base, ∀ device text : String,
    ((Setting.read device table d.name text).outcome.toOption.map fun p => (p.id, p.value)) =
      (Setting.read device table s!"ch1{d.name}" text).outcome.toOption.map fun p =>
        (p.id, p.value)

section Spread

variable {base : List Declaration} {channels : Nat}

theorem perChannel_of_le (hle : channels ≤ maxChannels) :
    perChannel base channels = .ok (base.flatMap (·.spread channels)) :=
  if_neg (Nat.not_lt.2 hle)

theorem getElem?_flatMap_spread {i k : Nat} (hk : k ≤ channels) :
    (base.flatMap (·.spread channels))[i * (channels + 1) + k]? =
      base[i]?.map fun d => d.entry k := by
  rw [getElem?_flatMap_of_length_eq (fun d => d.length_spread channels) (Nat.lt_succ_of_le hk),
    Option.map_eq_bind]
  congr 1
  funext d
  exact d.getElem?_spread hk

theorem multiplexed_flatMap_spread (hnodup : (base.map (·.id)).Nodup)
    (hroom : ∀ d ∈ base, d.id.toNat % maxChannels = 0) (hle : channels ≤ maxChannels) :
    Multiplexed base channels (base.flatMap (·.spread channels)) where
  length := by simp [List.length_flatMap]
  bare i := (getElem?_flatMap_spread (Nat.zero_le channels)).trans Option.map_id'
  channel i d hd channel hlt := by
    have hroom := hroom d (List.mem_of_getElem? hd)
    let channel' : Fin maxChannels := ⟨channel, Nat.lt_of_lt_of_le hlt hle⟩
    refine ⟨d.forChannel channel, ?_, rfl, rfl, rfl, rfl, toNat_add_channel hroom channel',
      congrArg Fin.val (channelOf_add hroom channel'), commonOf_add hroom channel'⟩
    rw [getElem?_flatMap_spread hlt, hd]
    rfl
  ids i i' k k' e e' hk hk' he he' := by
    rw [getElem?_flatMap_spread hk, Option.map_eq_some_iff] at he
    rw [getElem?_flatMap_spread hk', Option.map_eq_some_iff] at he'
    obtain ⟨d, hd, rfl⟩ := he
    obtain ⟨d', hd', rfl⟩ := he'
    have hlt {k : Nat} (hk : k ≤ channels) : k - 1 < maxChannels := by
      simp only [maxChannels] at hle ⊢
      omega
    have hadd := add_channel_inj (hroom d (List.mem_of_getElem? hd))
      (hroom d' (List.mem_of_getElem? hd')) ⟨k - 1, hlt hk⟩ ⟨k' - 1, hlt hk'⟩
    rw [d.id_entry, d'.id_entry, hadd, Fin.mk.injEq]
    refine and_congr_left fun _ => ⟨fun hid => ?_, ?_⟩
    · have hids : (base.map (·.id))[i]? = (base.map (·.id))[i']? := by
        rw [List.getElem?_map, List.getElem?_map, hd, hd', Option.map_some, Option.map_some, hid]
      refine (List.getElem?_inj ?_ hnodup).1 hids
      rw [List.length_map]
      exact (List.getElem?_eq_some_iff.1 hd).1
    · rintro rfl
      rw [Option.some.inj (hd.symm.trans hd')]

theorem Unshared.name_entry_inj (h : Unshared base channels) (hle : channels ≤ maxChannels)
    {d d' : Declaration} (hd : d ∈ base) (hd' : d' ∈ base) {k k' : Nat} (hk : k ≤ channels)
    (hk' : k' ≤ channels) (hname : (d.entry k).name = (d'.entry k').name) :
    d.name = d'.name ∧ k = k' := by
  cases k with
  | zero =>
    cases k' with
    | zero => exact ⟨hname, rfl⟩
    | succ channel' => exact absurd hname (h d hd d' hd' channel' hk')
  | succ channel =>
    cases k' with
    | zero => exact absurd hname.symm (h d' hd' d hd channel hk)
    | succ channel' =>
      obtain ⟨hchannel, hname⟩ := (Declaration.name_forChannel_inj
        ⟨channel, Nat.lt_of_lt_of_le hk hle⟩ ⟨channel', Nat.lt_of_lt_of_le hk' hle⟩).1 hname
      exact ⟨hname, congrArg (·.val + 1) hchannel⟩

theorem nodup_names_flatMap_spread (hnames : (base.map (·.name)).Nodup)
    (h : Unshared base channels) (hle : channels ≤ maxChannels) :
    ((base.flatMap (·.spread channels)).map (·.name)).Nodup := by
  rw [List.map_flatMap, List.nodup_flatMap]
  constructor
  · intro d hd
    rw [Declaration.spread_eq_map, List.map_map]
    refine List.Nodup.map_on ?_ List.nodup_range
    intro k hk k' hk' hname
    exact (h.name_entry_inj hle hd hd (Nat.le_of_lt_succ (List.mem_range.1 hk))
      (Nat.le_of_lt_succ (List.mem_range.1 hk')) hname).2
  · refine (List.pairwise_map.1 hnames).imp_of_mem fun {d d'} hd hd' hne => ?_
    intro name hname hname'
    obtain ⟨k, hk, rfl⟩ := Declaration.mem_names_spread.1 hname
    obtain ⟨k', hk', heq⟩ := Declaration.mem_names_spread.1 hname'
    exact hne (h.name_entry_inj hle hd' hd hk' hk heq).1.symm

theorem resolved_flatMap_spread (hnames : (base.map (·.name)).Nodup)
    (h : Unshared base channels) (hle : channels ≤ maxChannels) :
    Resolved base channels (base.flatMap (·.spread channels)) := by
  have hnodup := nodup_names_flatMap_spread hnames h hle
  have hfind : ∀ e ∈ base.flatMap (·.spread channels),
      find? (base.flatMap (·.spread channels)) e.name = some e :=
    fun e he => (find?_eq_some_iff hnodup).2 ⟨he, rfl⟩
  refine ⟨hnodup, hfind, fun device given hgiven => ?_, fun hpos d hd device text => ?_⟩
  · induction given with
    | nil => rfl
    | cons x given ih =>
      obtain ⟨hx, hgiven⟩ := List.forall_mem_cons.1 hgiven
      have ih := ih hgiven
      rw [Setting.readAll] at ih
      rw [List.map_cons, Setting.readAll, List.mapM_cons, List.mapM_cons, Checked.outcome_bind,
        Declaration.outcome_read (hfind x.1 hx)]
      simp only [Checked.outcome_bind, ih, Checked.outcome_pure]
      rfl
  · have hbare : d ∈ base.flatMap (·.spread channels) :=
      List.mem_flatMap.2 ⟨d, hd, List.mem_cons_self⟩
    have hfirst : d.forChannel 0 ∈ base.flatMap (·.spread channels) :=
      List.mem_flatMap.2
        ⟨d, hd, List.mem_cons_of_mem d (List.mem_map_of_mem (List.mem_range.2 hpos))⟩
    have hname : s!"ch1{d.name}" = (d.forChannel 0).name := rfl
    rw [hname, Declaration.outcome_read (hfind d hbare),
      Declaration.outcome_read (hfind (d.forChannel 0) hfirst)]
    unfold Declaration.setting
    rw [Declaration.kind_forChannel]
    cases Value.ofText? d.kind text with
    | none => rfl
    | some v => exact congrArg (fun id => some (id, v)) (UInt32.add_zero d.id).symm

end Spread

/-- A table is spread over at most eight channels. If its declarations are numbered apart and with
room for a channel, what comes of it is in blocks, and its numbers tell declarations and channels;
if they are also named apart, each name leads to its own entry. -/
theorem perChannel_multiplexes {base : List Declaration} (hnodup : (base.map (·.id)).Nodup)
    (hlow : ∀ d ∈ base, d.id &&& 7 = 0) (channels : Nat) :
    (8 < channels → perChannel base channels = .error (.tooManyChannels channels 8)) ∧
      (channels ≤ 8 → ∃ table, perChannel base channels = .ok table ∧
        Multiplexed base channels table ∧
        ((base.map (·.name)).Nodup → Unshared base channels → Resolved base channels table)) := by
  refine ⟨fun hlt => if_pos hlt, fun hle => ?_⟩
  have hroom : ∀ d ∈ base, d.id.toNat % maxChannels = 0 :=
    fun d hd => mod_maxChannels_of_and (hlow d hd)
  exact ⟨base.flatMap (·.spread channels), perChannel_of_le hle,
    multiplexed_flatMap_spread hnodup hroom hle,
    fun hnames h => resolved_flatMap_spread hnames h hle⟩

def sampleDeclarations : List Declaration :=
  [⟨"scale", 0x1000, .s32, none, none⟩, ⟨"limit", 0x1008, .s32, none, none⟩,
    ⟨"chlimit", 0x1010, .bit, none, none⟩]

theorem perChannel_multiplexes_sample :
    (sampleDeclarations.map (·.id)).Nodup ∧ (∀ d ∈ sampleDeclarations, d.id &&& 7 = 0) ∧
      ∃ table, perChannel sampleDeclarations 8 = .ok table ∧
        Multiplexed sampleDeclarations 8 table ∧ Resolved sampleDeclarations 8 table := by
  have hnodup : (sampleDeclarations.map (·.id)).Nodup := by decide
  have hlow : ∀ d ∈ sampleDeclarations, d.id &&& 7 = 0 := by decide
  obtain ⟨table, htable, hmultiplexed, hresolved⟩ :=
    (perChannel_multiplexes hnodup hlow 8).2 (Nat.le_refl 8)
  exact ⟨hnodup, hlow, table, htable, hmultiplexed, hresolved (by decide) (by decide)⟩

end ServoBus.Param
