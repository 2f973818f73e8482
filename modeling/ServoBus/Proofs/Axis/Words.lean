import ServoBus.Axis.Words
import ServoBus.Proofs.Axis.Appends
import ServoBus.Proofs.Feature.Bitmap
import ServoBus.Proofs.Sync.Storage

/-!
# Layouts in machine words do not break

`Words` lays out with numbers that have to fit, on the flat storage. `Follows` says that it does
what the layout over natural numbers does on the builder of the same draft, so that it does not
break, and that the values of the two are related. For the cursor the relation is the invariant of
the loop: the PDO at hand is in its range, the channel has no more PDOs than there are up to it, and
this PDO has no more entries than the channel.
-/

namespace ServoBus

namespace Sync

/-- A node counts no more children than there are on the next level. -/
theorem count_le_of_mem_layOut {ν η β : Type} {children : ν → List β} {node : ν → Span → η}
    (count : η → Nat) (h : ∀ x s, count (node x s) = s.count) {first : Nat} {xs : List ν} {y : η}
    (hy : y ∈ layOut children node first xs) : count y ≤ (xs.flatMap children).length := by
  induction xs generalizing first with
  | nil => cases hy
  | cons x xs ih =>
    rw [List.flatMap_cons, List.length_append]
    rcases List.mem_cons.1 hy with rfl | hy
    · rw [h]
      exact Nat.le_add_right ..
    · exact Nat.le_trans (ih hy) (Nat.le_add_left ..)

end Sync

namespace Axis.Words

open Sync (Storage Builder Draft Entry Span)

variable {o : Options} {s : Side}

/-! ## Numbers that fit -/

theorem index?_eq {n : Nat} (h : n < UInt16.size) : index? n = some (UInt16.ofNat n) := if_pos h

theorem index?_add {a b : UInt16} (h : a.toNat + b.toNat < UInt16.size) :
    index? (a.toNat + b.toNat) = some (a + b) := by
  rw [index?_eq h, UInt16.ofNat_add, UInt16.ofNat_toNat, UInt16.ofNat_toNat]

theorem base?_eq {c : Nat} (hc : c < Param.maxChannels) : base? c = some (base c) := by
  have hc' : c < 8 := hc
  have hsize : UInt16.size = 65536 := rfl
  have hchannel : (UInt16.ofNat c).toNat = c := UInt16.toNat_ofNat_of_lt' (by omega)
  have hdistance : (UInt16.ofNat (0x800 * c)).toNat = 0x800 * c :=
    UInt16.toNat_ofNat_of_lt' (by omega)
  rw [base?, hchannel, index?_eq (by omega), Option.bind_eq_bind, Option.bind_some, hdistance,
    index?_eq (by omega), ← toNat_base hc, UInt16.ofNat_toNat]

theorem mapObject?_eq {base : UInt16} {d : DriveObject}
    (h : base.toNat + d.offset.toNat < UInt16.size) :
    mapObject? base d = some ⟨⟨d.index base, d.subindex⟩, d.format.width⟩ := by
  rw [mapObject?, index?_add h]
  rfl

/-- A place that is not in a range does not have to fit. -/
theorem filter_index? (n : Nat) :
    ((index? n).filter fun w => decide (w.toNat ≤ 0x1ff)) =
      if n ≤ 0x1ff then some (UInt16.ofNat n) else none := by
  by_cases hfit : n < UInt16.size
  · rw [index?_eq hfit, Option.filter_some, UInt16.toNat_ofNat_of_lt' hfit]
    simp only [decide_eq_true_eq]
  · have hsize : UInt16.size = 65536 := rfl
    rw [index?, if_neg hfit, if_neg (by omega)]
    rfl

/-- The indices of all objects of a channel fit. -/
theorem entries?_eq (hw : s.word.toNat < 0x800) {c : Nat} (hc : c < Param.maxChannels)
    (enabled : FeatureSet) : entries? s c enabled = some (s.entries c enabled) := by
  have hbase := toNat_base hc
  have hfits {n : Nat} (hn : n < 0x800) : (base c).toNat + n < UInt16.size := by
    have hc : c < 8 := hc
    have hsize : UInt16.size = 65536 := rfl
    omega
  have hmapped (p : Feature × DriveObject) (hp : p ∈ enabled.objects s.transfer) :
      mapObject? (base c) p.2 = some ⟨⟨p.2.index (base c), p.2.subindex⟩, p.2.format.width⟩ :=
    mapObject?_eq (hfits (Feature.offset_lt (FeatureSet.mem_objects.1 hp).2.1))
  simp only [entries?, base?_eq hc, index?_add (hfits hw), Bitmap.objects?_ofSet,
    Option.bind_eq_bind, Option.bind_some, Side.entries]
  rw [mapM_eq_some_map hmapped]
  rfl

/-- The channels in use have options. -/
theorem active?_eq (o : Options) : active? o = some o.active := by
  have hlen : o.channel.toList.length = Param.maxChannels := Vector.length_toList
  have htake := @List.take_eq_take_min _ o.channel.toList o.channels
  rw [hlen] at htake
  rw [active?, Span.cut?, if_pos (by simp), List.drop_zero, Options.active, htake]

/-! ## Following the layout -/

/-- On the storage of a draft the one does what the other does on its builder, with related
values. -/
def Follows {α β : Type} (V : α → β → Prop) (x : Brittle Storage α) (y : Action Builder β) : Prop :=
  ∀ d : Draft, ∃ d' : Draft,
    (∃ e, x.result? (.ofDraft d) = some (.error e, .ofDraft d') ∧
      y.result (.ofDraft d) = (.error e, .ofDraft d')) ∨
    ∃ a b, V a b ∧ x.result? (.ofDraft d) = some (.ok a, .ofDraft d') ∧
      y.result (.ofDraft d) = (.ok b, .ofDraft d')

section Step

variable {α β γ δ : Type} {V : α → β → Prop} {W : γ → δ → Prop}

theorem follows_pure {a : α} {b : β} (h : V a b) :
    Follows V (pure a : Brittle Storage α) (pure b) :=
  fun d => ⟨d, .inr ⟨a, b, h, rfl, rfl⟩⟩

theorem Follows.bind {x : Brittle Storage α} {y : Action Builder β} {f : α → Brittle Storage γ}
    {g : β → Action Builder δ} (hxy : Follows V x y) (hfg : ∀ a b, V a b → Follows W (f a) (g b)) :
    Follows W (x >>= f) (y >>= g) := by
  intro d
  obtain ⟨d', ⟨e, hx, hy⟩ | ⟨a, b, hab, hx, hy⟩⟩ := hxy d
  · refine ⟨d', .inl ⟨e, ?_, ?_⟩⟩
    · rw [Brittle.result?_bind, hx]
    · rw [Action.result_bind, hy]
  · rw [Brittle.result?_bind, Action.result_bind, hx, hy]
    exact hfg a b hab d'

theorem Follows.forM {f : α → Brittle Storage PUnit} {g : α → Action Builder PUnit} {xs : List α}
    (h : ∀ x ∈ xs, Follows Eq (f x) (g x)) : Follows Eq (xs.forM f) (xs.forM g) := by
  induction xs with
  | nil => exact follows_pure rfl
  | cons x xs ih =>
    obtain ⟨hx, hxs⟩ := List.forall_mem_cons.1 h
    exact hx.bind fun _ _ _ => ih hxs

theorem follows_refuse (reason : Reason) :
    Follows V (refuse reason) (Layout.refuse reason) :=
  fun d => ⟨d, .inl ⟨.misconfigured d.device reason, rfl, rfl⟩⟩

/-- A call is answered in the same way. -/
theorem follows_call (c : Sync.Call) {x : Action Storage Unit} {y : Action Builder Unit}
    (hx : x.result = Storage.perform c) (hy : y.result = Builder.perform c) :
    Follows Eq (Brittle.ofAction x) y := by
  intro d
  have hstorage := Storage.perform_ofDraft c d
  have hbuilder := Builder.perform_ofDraft c d
  refine ⟨(Draft.perform c d).2, ?_⟩
  rw [Brittle.result?_ofAction, hx, hy, hstorage, hbuilder]
  rcases (Draft.perform c d).1 with e | u
  · exact .inl ⟨e, rfl, rfl⟩
  · exact .inr ⟨u, u, rfl, rfl, rfl⟩

/-- What fits is counted. -/
theorem follows_counting {counts : Storage → List Nat} {x : Action Storage Unit}
    {y : Action Builder Unit} (hxy : Follows Eq (Brittle.ofAction x) y)
    (hfit : ∀ d d' : Draft, x.result (.ofDraft d) = (.ok (), .ofDraft d') →
      ∀ n ∈ counts (.ofDraft d'), n < USize.size) : Follows Eq (counting counts x) y := by
  intro d
  obtain ⟨d', ⟨e, hx, hy⟩ | ⟨a, b, hab, hx, hy⟩⟩ := hxy d
  · refine ⟨d', .inl ⟨e, ?_, hy⟩⟩
    rw [counting, Brittle.result?_bind, hx]
  · refine ⟨d', .inr ⟨a, b, hab, ?_, hy⟩⟩
    have hfit := hfit d d' (Option.some.inj ((Brittle.result?_ofAction x _).symm.trans hx))
    rw [counting, Brittle.result?_bind, hx]
    simp only [Brittle.result?_bind, Brittle.result?_get]
    rw [if_pos hfit]
    rfl

theorem length_pdos_of_result_addPdo {index : UInt16} {t t' : Storage}
    (h : (Storage.addPdo index).result t = (.ok (), t')) : t'.pdos.length ≤ Sync.pdoLimit := by
  rw [Storage.result_addPdo] at h
  split at h
  · cases h
  · split at h
    · cases h
    · next hroom =>
      cases h
      rw [List.length_append]
      exact Nat.lt_of_not_le hroom

theorem length_entries_of_result_addEntry {e : Entry} {t t' : Storage}
    (h : (Storage.addEntry e).result t = (.ok (), t')) : t'.entries.length ≤ Sync.entryLimit := by
  rw [Storage.result_addEntry] at h
  split at h
  · cases h
  · split at h
    · cases h
    · next hroom =>
      cases h
      rw [List.length_append]
      exact Nat.lt_of_not_le hroom

theorem le_length_of_mem_pdoCounts {d : Draft} {n : Nat} (h : n ∈ pdoCounts (.ofDraft d)) :
    n ≤ (Storage.ofDraft d).pdos.length := by
  obtain ⟨m, hm, rfl⟩ := List.mem_map.1 h
  rw [Storage.ofDraft, Sync.length_pdoNodes]
  exact Sync.count_le_of_mem_layOut (·.pdos.count) (fun _ _ => rfl) hm

theorem le_length_of_mem_entryCounts {d : Draft} {n : Nat} (h : n ∈ entryCounts (.ofDraft d)) :
    n ≤ (Storage.ofDraft d).entries.length := by
  obtain ⟨p, hp, rfl⟩ := List.mem_map.1 h
  exact Sync.count_le_of_mem_layOut (·.entries.count) (fun _ _ => rfl) hp

theorem follows_addPdoNode (index : UInt16) :
    Follows Eq (counting pdoCounts (Storage.addPdo index)) (Builder.addPdo index) := by
  refine follows_counting (follows_call (.pdo index) rfl rfl) fun d d' h n hn => ?_
  have hle := Nat.le_trans (le_length_of_mem_pdoCounts hn) (length_pdos_of_result_addPdo h)
  exact lt_size_of_lt (Nat.lt_of_le_of_lt hle (by decide))

theorem follows_addEntry (e : Entry) :
    Follows Eq (counting entryCounts (Storage.addEntry e)) (Builder.addEntry e) := by
  refine follows_counting (follows_call (.entry e) rfl rfl) fun d d' h n hn => ?_
  have hle := Nat.le_trans (le_length_of_mem_entryCounts hn) (length_entries_of_result_addEntry h)
  exact lt_size_of_lt (Nat.lt_of_le_of_lt hle (by decide))

/-- The storage and the builder have PDOs of the same indices. -/
theorem follows_addPdo (pdo : UInt16) : Follows Eq (addPdo pdo) (Layout.addPdo pdo.toNat) := by
  intro d
  have hindices := (Sync.mirrors_ofDraft d).pdoIndices
  have hany : ((Storage.ofDraft d).pdos.any (·.index == pdo)) =
      (Builder.ofDraft d).pdoIndices.any fun i => i.toNat == pdo.toNat := by
    rw [← hindices, List.any_map]
    congr 1
    funext p
    rw [Bool.eq_iff_iff, beq_iff_eq]
    simp [UInt16.toNat_inj]
  rw [addPdo, Layout.addPdo, Brittle.result?_bind, Action.result_bind, Brittle.result?_get,
    Action.result_get]
  dsimp only
  rw [hany]
  split
  · exact follows_refuse (.sharedPdo pdo.toNat) d
  · rw [UInt16.ofNat_toNat]
    exact follows_addPdoNode pdo d

end Step

/-! ## The steps of a layout -/

section Drive

/-- The word is the index of a place, and the place is in the range of the direction. -/
def Places (s : Side) (w : UInt16) (n : Nat) : Prop := w.toNat = n ∧ n ≤ s.lastPdo

theorem lastPdo?_eq (hs : s.lastPdo < UInt16.size) :
    lastPdo? s = some (UInt16.ofNat s.lastPdo) ∧ (UInt16.ofNat s.lastPdo).toNat = s.lastPdo :=
  ⟨index?_eq hs, UInt16.toNat_ofNat_of_lt' hs⟩

theorem follows_firstPdo (hs : s.lastPdo < UInt16.size) {c : Nat} (hc : c < Param.maxChannels) :
    Follows (Places s) (firstPdo o s c) (Layout.firstPdo o s c) := by
  have hc : c < 8 := hc
  have hsize : UInt16.size = 65536 := rfl
  have hchannel : (UInt16.ofNat c).toNat = c := UInt16.toNat_ofNat_of_lt' (by omega)
  have hnumber : (USize.ofNat (c + 1)).toNat = c + 1 :=
    USize.toNat_ofNat_of_lt' (lt_size_of_lt (by omega))
  obtain ⟨hlast, hlast'⟩ := lastPdo?_eq hs
  rw [firstPdo, index?_eq (by omega), Option.bind_some, hchannel, filter_index?]
  dsimp only [Layout.firstPdo]
  by_cases h : c * o.increment.toNat ≤ 0x1ff
  · have hfirst : s.firstPdo + c * o.increment.toNat ≤ s.lastPdo := Nat.add_le_add_left h _
    have hoffset : (UInt16.ofNat (c * o.increment.toNat)).toNat = c * o.increment.toNat :=
      UInt16.toNat_ofNat_of_lt' (by omega)
    simp only [if_pos h]
    rw [hoffset, index?_eq (by omega), Brittle.need_some]
    exact follows_pure ⟨UInt16.toNat_ofNat_of_lt' (by omega), hfirst⟩
  · simp only [if_neg h]
    rw [count?_eq (lt_size_of_lt (by omega)), hlast, Brittle.need_some, Brittle.need_some,
      pure_bind, pure_bind, hnumber, hlast']
    exact follows_refuse _

/-- The cursor in words is the cursor, with so many entries still to come. -/
structure Cursor.Tracks (s : Side) (rest : Nat) (w : Cursor) (c : Layout.Cursor) : Prop where
  pdo : w.pdo.toNat = c.pdo
  pdos : w.pdos.toNat = c.pdos
  filled : w.filled.toNat = c.filled
  last : c.pdo ≤ s.lastPdo
  few : c.pdos ≤ c.pdo + 1
  room : c.filled + rest < USize.size

theorem follows_flowOn (hs : s.lastPdo < UInt16.size) {rest : Nat} {first last : UInt16}
    (hlast : last.toNat = s.lastPdo) {w : Cursor} {c : Layout.Cursor} (h : w.Tracks s rest c) :
    Follows (Cursor.Tracks s rest) (flowOn o last first w) (Layout.flowOn o s first.toNat c) := by
  have hend : w.pdo = last ↔ c.pdo = s.lastPdo := by rw [← UInt16.toNat_inj, h.pdo, hlast]
  have hlt := h.last
  have hfew := h.few
  unfold flowOn Layout.flowOn
  rw [h.pdo, h.pdos]
  simp only [hend]
  split
  · exact follows_refuse _
  · split
    · exact follows_refuse _
    · next hgo =>
      have hpdo : c.pdo + 1 ≤ s.lastPdo := by omega
      have hword : (UInt16.ofNat (c.pdo + 1)).toNat = c.pdo + 1 :=
        UInt16.toNat_ofNat_of_lt' (by omega)
      -- There are no more PDOs than indices, which is far less than what a count can hold.
      have hcount : c.pdos + 1 < USize.size := by
        have hsize : UInt16.size = 65536 := rfl
        exact lt_size_of_lt (by omega)
      have hadd := follows_addPdo (UInt16.ofNat (c.pdo + 1))
      rw [hword] at hadd
      rw [index?_eq (by omega), count?_eq hcount, Brittle.need_some, Brittle.need_some, pure_bind,
        pure_bind]
      refine hadd.bind fun _ _ _ => follows_pure ?_
      exact {
        pdo := hword
        pdos := USize.toNat_ofNat_of_lt' hcount
        filled := USize.toNat_zero
        last := hpdo
        few := Nat.add_le_add_right hfew 1
        room := by
          rw [Nat.zero_add]
          exact Nat.lt_of_le_of_lt (Nat.le_add_left ..) h.room }

theorem follows_addEntries (hs : s.lastPdo < UInt16.size) {first last : UInt16}
    (hlast : last.toNat = s.lastPdo) {es : List Entry} {w : Cursor} {c : Layout.Cursor}
    (h : w.Tracks s es.length c) :
    Follows Eq (addEntries o last first w es) (Layout.addEntries o s first.toNat c es) := by
  induction es generalizing w c with
  | nil => exact follows_pure rfl
  | cons e es ih =>
    -- Both branches go on in the same way, with a cursor that has room for all that is to come.
    have hgo (w : Cursor) (c : Layout.Cursor) (h : w.Tracks s (e :: es).length c) :
        Follows Eq
          (do
            counting entryCounts (Storage.addEntry e)
            let filled ← Brittle.need (count? (w.filled.toNat + 1))
            addEntries o last first { w with filled } es)
          (do
            Builder.addEntry e
            Layout.addEntries o s first.toNat { c with filled := c.filled + 1 } es) := by
      have hroom := h.room
      rw [List.length_cons] at hroom
      have hfilled : c.filled + 1 < USize.size := by omega
      refine (follows_addEntry e).bind fun _ _ _ => ?_
      rw [h.filled, count?_eq hfilled, Brittle.need_some, pure_bind]
      refine ih { h with filled := USize.toNat_ofNat_of_lt' hfilled, room := ?_ }
      dsimp only
      omega
    rw [addEntries, Layout.addEntries, h.filled]
    split
    · exact (follows_flowOn hs hlast h).bind hgo
    · exact (follows_pure h).bind hgo

theorem length_entries_lt (s : Side) (c : Nat) (enabled : FeatureSet) :
    (s.entries c enabled).length < USize.size := by
  have hobjects : (enabled.objects s.transfer).length ≤ Feature.count :=
    Nat.le_trans (List.length_filterMap_le ..) (List.length_filter_le ..)
  have hcount : Feature.count + 1 < 2 ^ 32 := by decide
  rw [Side.entries, List.length_cons, List.length_map]
  exact lt_size_of_lt (by omega)

theorem follows_addChannel (hs : s.lastPdo < UInt16.size) (hw : s.word.toNat < 0x800) {c : Nat}
    (hc : c < Param.maxChannels) (enabled : FeatureSet) :
    Follows Eq (addChannel o s c enabled) (Layout.addChannel o s c enabled) := by
  obtain ⟨hlast, hlast'⟩ := lastPdo?_eq hs
  have hone : (1 : USize).toNat = 1 := USize.toNat_one
  rw [addChannel, entries?_eq hw hc, Brittle.need_some, pure_bind]
  refine (follows_firstPdo hs hc).bind fun first _ hfirst => ?_
  obtain ⟨rfl, hfirst⟩ := hfirst
  have hstart : Cursor.Tracks s (s.entries c enabled).length ⟨first, 1, 0⟩ ⟨first.toNat, 1, 0⟩ := {
    pdo := rfl
    pdos := hone
    filled := USize.toNat_zero
    last := hfirst
    few := Nat.le_add_left ..
    room := by
      rw [Nat.zero_add]
      exact length_entries_lt s c enabled }
  have hadd : Follows Eq
      (do
        let last ← Brittle.need (lastPdo? s)
        addPdo first
        addEntries o last first ⟨first, 1, 0⟩ (s.entries c enabled))
      (do
        Layout.addPdo first.toNat
        Layout.addEntries o s first.toNat ⟨first.toNat, 1, 0⟩ (s.entries c enabled)) := by
    rw [hlast, Brittle.need_some, pure_bind]
    exact (follows_addPdo first).bind fun _ _ _ => follows_addEntries hs hlast' hstart
  split
  · exact (follows_refuse (V := Eq) _).bind fun _ _ _ => hadd
  · exact hadd

theorem follows_addSide (hs : s.lastPdo < UInt16.size) (hw : s.word.toNat < 0x800) :
    Follows Eq (addSide o s) (Layout.addSide o s) := by
  refine (follows_call (.manager s.direction .default) rfl rfl).bind fun _ _ _ => ?_
  rw [active?_eq, Brittle.need_some, pure_bind]
  refine Follows.forM fun (opts, c) hp => follows_addChannel hs hw ?_ _
  have hlt := (List.mem_zipIdx hp).2.1
  rw [Nat.zero_add, o.length_active] at hlt
  omega

end Drive

/-! ## Every run is safe -/

/-- What a direction has appended to the storage, whether it is complete or not: PDOs of a range
that are new, and the first of the entries that the direction maps, each in the block of objects of
its channel. -/
structure Appended (o : Options) (s : Side) (lo hi : Nat) (t t' : Storage) : Prop where
  pdos : ∃ new : List UInt16, t'.pdos.map (·.index) = t.pdos.map (·.index) ++ new ∧
    (∀ i ∈ new, lo ≤ i.toNat ∧ i.toNat ≤ hi) ∧ new.Nodup ∧ (t.pdos.map (·.index)).Disjoint new
  entries : ∃ mapped : List (Nat × Entry), t'.entries = t.entries ++ mapped.map Prod.snd ∧
    mapped <+: Layout.demands o s ∧
    ∀ c e, (c, e) ∈ mapped → c < 8 ∧ 0x6000 + 0x800 * c ≤ e.address.index.toNat ∧
      e.address.index.toNat < 0x6000 + 0x800 * (c + 1)

/-- The direction is laid out without a break, as on the builder, and what it leaves behind is what
it may append. -/
def Safe (o : Options) (s : Side) (lo hi : Nat) (t : Storage) (b : Builder) : Prop :=
  ∃ t', (addSide o s).result? t = some (((Layout.addSide o s).result b).1, t') ∧
    Sync.Mirrors t' ((Layout.addSide o s).result b).2 ∧ Appended o s lo hi t t'

theorem appended_ofDraft (hs : s.lastPdo < UInt16.size) (hw : s.word.toNat < 0x800) {d d' : Draft}
    (h : ((Layout.addSide o s).result (.ofDraft d)).2 = .ofDraft d') :
    Appended o s s.firstPdo s.lastPdo (.ofDraft d) (.ofDraft d') := by
  obtain ⟨part, hpart, happ, -⟩ := Layout.lays_addSide (o := o) hs (.ofDraft d)
  rw [h] at happ
  have hd := Sync.mirrors_ofDraft d
  have hd' := Sync.mirrors_ofDraft d'
  refine ⟨?_, (Layout.demands o s).take part.length, ?_, List.take_prefix .., ?_⟩
  · rw [hd.pdoIndices, hd'.pdoIndices]
    exact happ.pdos
  · rw [hd.entries, hd'.entries, happ.entries, List.map_take, ← List.prefix_iff_eq_take.1 hpart]
  · exact fun c e hmem => Layout.block_of_mem_demands hw (List.mem_of_mem_take hmem)

theorem safe_ofDraft (hs : s.lastPdo < UInt16.size) (hw : s.word.toNat < 0x800) (d : Draft) :
    Safe o s s.firstPdo s.lastPdo (.ofDraft d) (.ofDraft d) := by
  obtain ⟨d', hd'⟩ := follows_addSide (o := o) hs hw d
  -- A direction that fails and one that succeeds both end in the state of one draft.
  have hsame : (addSide o s).result? (.ofDraft d) =
      some (((Layout.addSide o s).result (.ofDraft d)).1, .ofDraft d') ∧
      ((Layout.addSide o s).result (.ofDraft d)).2 = .ofDraft d' := by
    obtain ⟨e, hx, hy⟩ | ⟨a, b, hab, hx, hy⟩ := hd'
    · rw [hx, hy]
      exact ⟨rfl, rfl⟩
    · rw [hx, hy, hab]
      exact ⟨rfl, rfl⟩
  refine ⟨.ofDraft d', hsame.1, ?_, appended_ofDraft hs hw hsame.2⟩
  rw [hsame.2]
  exact Sync.mirrors_ofDraft d'

/-- Whatever was done before and whatever the options are, no direction breaks: it has an answer,
which is the one on the builder, and what it has appended is in its range and in the blocks of its
channels. -/
theorem addSide_safe (o : Options) (device : String) (calls : List Sync.Call) :
    let t := (Sync.record Storage.perform calls ⟨device, [], [], [], false⟩).2
    let b := (Sync.record Builder.perform calls ⟨device, [], false⟩).2
    Safe o .output 0x1600 0x17ff t b ∧ Safe o .input 0x1a00 0x1bff t b := by
  have ht := Sync.record_map Storage.perform_ofDraft calls ⟨device, false, []⟩
  have hb := Sync.record_map Builder.perform_ofDraft calls ⟨device, false, []⟩
  dsimp only
  rw [show (⟨device, [], [], [], false⟩ : Storage) = .ofDraft ⟨device, false, []⟩ from rfl, ht,
    show (⟨device, [], false⟩ : Builder) = .ofDraft ⟨device, false, []⟩ from rfl, hb]
  exact ⟨safe_ofDraft (by decide) (by decide) _, safe_ofDraft (by decide) (by decide) _⟩

end Axis.Words

end ServoBus
