import Mathlib.Data.List.Nodup
import ServoBus.Proofs.Axis.Address
import ServoBus.Proofs.Axis.Channels

/-!
# What a direction appends

Adding a direction appends nodes to sync managers and does nothing else to them. `Appends` says
which ones: PDOs from the range of the direction, none of which was there before, and entries in a
given order. `Lays` says it of a step of the layout that fails or succeeds: a step that fails has
appended the first of its entries, and one that succeeds has appended them all. The range of a step
is an invariant of the cursor, which stays in it whatever the options are.
-/

namespace ServoBus

namespace Sync.Builder

variable {b : Builder} {latest : List Manager}

theorem pdoIndices_cons (b : Builder) {m : Manager} (hm : m.pdos = []) :
    pdoIndices { b with latest := m :: b.latest } = b.pdoIndices := by
  simp [pdoIndices, pdos, managers_cons, wireManager, hm]

theorem entries_cons (b : Builder) {m : Manager} (hm : m.pdos = []) :
    entries { b with latest := m :: b.latest } = b.entries := by
  simp [entries, managers_cons, wireManager, Manager.entries, hm]

theorem entries_eq_flatMap_pdos (b : Builder) : b.entries = b.pdos.flatMap (·.entries) := by
  rw [entries, pdos, List.flatMap_assoc]
  rfl

/-- A PDO has no entries yet. -/
theorem entries_pushPdo? {index : UInt16} (h : pushPdo? index b.latest = some latest) :
    entries { b with latest } = b.entries := by
  rw [entries_eq_flatMap_pdos, pdos_pushPdo? h, List.flatMap_append, entries_eq_flatMap_pdos]
  exact List.append_nil _

/-- An entry leaves the PDOs as they are. -/
theorem pdoIndices_pushEntry? {e : Entry} (h : pushEntry? e b.latest = some latest) :
    pdoIndices { b with latest } = b.pdoIndices := by
  unfold pushEntry? at h
  split at h
  · next hl =>
    rw [Option.some.injEq] at h
    subst h
    simp [pdoIndices, pdos, managers, hl, wireManager, wirePdo]
  · cases h

end Sync.Builder

namespace Axis.Layout

open Sync (Builder Entry Pdo)

/-- Sync managers with further PDOs of a range, and with further entries. -/
structure Appends (s : Side) (es : List Entry) (b b' : Builder) : Prop where
  pdos : ∃ new : List UInt16, b'.pdoIndices = b.pdoIndices ++ new ∧
    (∀ i ∈ new, s.firstPdo ≤ i.toNat ∧ i.toNat ≤ s.lastPdo) ∧ new.Nodup ∧
    b.pdoIndices.Disjoint new
  entries : b'.entries = b.entries ++ es

section Appends

variable {s : Side} {es es' : List Entry} {b b' b'' : Builder}

theorem Appends.refl (s : Side) (b : Builder) : Appends s [] b b where
  pdos := ⟨[], (List.append_nil _).symm, List.forall_mem_nil _, List.nodup_nil,
    List.disjoint_nil_right _⟩
  entries := (List.append_nil _).symm

theorem Appends.trans (h : Appends s es b b') (h' : Appends s es' b' b'') :
    Appends s (es ++ es') b b'' where
  pdos := by
    obtain ⟨new, hnew, hrange, hnodup, hfresh⟩ := h.pdos
    obtain ⟨new', hnew', hrange', hnodup', hfresh'⟩ := h'.pdos
    rw [hnew, List.disjoint_append_left] at hfresh'
    refine ⟨new ++ new', ?_, ?_, ?_, ?_⟩
    · rw [hnew', hnew, List.append_assoc]
    · exact List.forall_mem_append.2 ⟨hrange, hrange'⟩
    · exact List.Nodup.append hnodup hnodup' hfresh'.2
    · exact List.disjoint_append_right.2 ⟨hfresh, hfresh'.1⟩
  entries := by rw [h'.entries, h.entries, List.append_assoc]

/-- Sync managers with further entries alone. -/
theorem appends_of_pdoIndices_eq (hp : b'.pdoIndices = b.pdoIndices)
    (he : b'.entries = b.entries ++ es) : Appends s es b b' where
  pdos := by
    rw [hp]
    exact (Appends.refl s b).pdos
  entries := he

/-- Sync managers that are marked as incomplete have no further nodes. -/
theorem appends_failed (s : Side) (b : Builder) : Appends s [] b { b with failed := true } :=
  appends_of_pdoIndices_eq rfl (List.append_nil _).symm

end Appends

/-- A step that appends these entries, or the first of them if it fails, and whose value has a
property. -/
def Lays {α : Type} (s : Side) (V : α → Prop) (es : List Entry) (x : Action Builder α) : Prop :=
  ∀ b, ∃ part, part <+: es ∧ Appends s part b (x.result b).2 ∧
    ∀ a, (x.result b).1 = .ok a → part = es ∧ V a

section Step

variable {α β : Type} {s : Side} {V : α → Prop} {W : β → Prop} {es es' : List Entry}

theorem lays_pure {a : α} (h : V a) : Lays s V [] (pure a : Action Builder α) := by
  intro b
  refine ⟨[], List.prefix_rfl, Appends.refl s b, fun a' ha => ⟨rfl, ?_⟩⟩
  cases ha
  exact h

theorem Lays.bind {x : Action Builder α} {f : α → Action Builder β} (hx : Lays s V es x)
    (hf : ∀ a, V a → Lays s W es' (f a)) : Lays s W (es ++ es') (x >>= f) := by
  intro b
  obtain ⟨part, hpart, happ, hok⟩ := hx b
  rw [Action.result_bind]
  rcases hr : x.result b with ⟨e | a, t⟩ <;> rw [hr] at happ hok
  · exact ⟨part, hpart.trans (List.prefix_append ..), happ, fun _ h => nomatch h⟩
  · obtain ⟨rfl, ha⟩ := hok a rfl
    obtain ⟨part', hpart', happ', hok'⟩ := hf a ha t
    refine ⟨part ++ part', (List.prefix_append_right_inj part).2 hpart', happ.trans happ', ?_⟩
    intro a' h'
    obtain ⟨rfl, ha'⟩ := hok' a' h'
    exact ⟨rfl, ha'⟩

/-- What follows a refusal does not matter. -/
theorem lays_refuse (reason : Reason) (es : List Entry) :
    Lays s V es (refuse reason : Action Builder α) := by
  intro b
  refine ⟨[], List.nil_prefix, Appends.refl s b, fun a h => ?_⟩
  exact (result_refuse_ne_ok (Prod.ext h rfl)).elim

theorem lays_forM {f : β → Action Builder PUnit} {g : β → List Entry} {xs : List β}
    (hf : ∀ x ∈ xs, Lays s (fun _ => True) (g x) (f x)) :
    Lays s (fun _ => True) (xs.flatMap g) (xs.forM f) := by
  induction xs with
  | nil => exact lays_pure trivial
  | cons x xs ih =>
    obtain ⟨hx, hxs⟩ := List.forall_mem_cons.1 hf
    exact hx.bind fun _ _ => ih hxs

theorem lays_addManager (direction : Sync.Direction) (watchdog : Sync.Watchdog) :
    Lays s (fun _ => True) [] (Builder.addManager direction watchdog) := by
  intro b
  rw [Builder.result_addManager]
  refine ⟨[], List.prefix_rfl, ?_, fun _ _ => ⟨rfl, trivial⟩⟩
  split
  · exact appends_failed s b
  · refine appends_of_pdoIndices_eq (Builder.pdoIndices_cons b rfl) ?_
    rw [List.append_nil]
    exact Builder.entries_cons b rfl

theorem lays_addEntry (e : Entry) : Lays s (fun _ => True) [e] (Builder.addEntry e) := by
  intro b
  rw [Builder.result_addEntry]
  split
  · exact ⟨[], List.nil_prefix, appends_failed s b, fun _ h => nomatch h⟩
  · next latest h =>
    split
    · exact ⟨[], List.nil_prefix, appends_failed s b, fun _ h => nomatch h⟩
    · refine ⟨[e], List.prefix_rfl, ?_, fun _ _ => ⟨rfl, trivial⟩⟩
      exact appends_of_pdoIndices_eq (Builder.pdoIndices_pushEntry? h)
        (Builder.entries_pushEntry? h)

/-- A PDO of the range is added, unless it is there. -/
theorem lays_addPdo (hs : s.lastPdo < UInt16.size) {pdo : Nat} (hfirst : s.firstPdo ≤ pdo)
    (hlast : pdo ≤ s.lastPdo) : Lays s (fun _ => True) [] (addPdo pdo) := by
  intro b
  have hpdo : (UInt16.ofNat pdo).toNat = pdo :=
    UInt16.toNat_ofNat_of_lt' (Nat.lt_of_le_of_lt hlast hs)
  rw [addPdo, Action.result_bind]
  simp only [Action.result_get]
  split
  · exact lays_refuse _ [] b
  · next hfresh =>
    have hfresh : UInt16.ofNat pdo ∉ b.pdoIndices := by
      intro hmem
      exact hfresh (List.any_eq_true.2 ⟨_, hmem, beq_iff_eq.2 hpdo⟩)
    rw [Builder.result_addPdo]
    refine ⟨[], List.prefix_rfl, ?_, fun _ _ => ⟨rfl, trivial⟩⟩
    split
    · exact appends_failed s b
    · next latest h =>
      split
      · exact appends_failed s b
      · refine ⟨⟨[UInt16.ofNat pdo], ?_, ?_, List.nodup_singleton _, ?_⟩, ?_⟩
        · rw [Builder.pdoIndices, Builder.pdos_pushPdo? h, List.map_append]
          rfl
        · rw [List.forall_mem_singleton, hpdo]
          exact ⟨hfirst, hlast⟩
        · rwa [List.disjoint_singleton]
        · rw [Builder.entries_pushPdo? h, List.append_nil]

end Step

/-! ## The steps of a layout -/

section Drive

variable {o : Options} {s : Side}

/-- A cursor that stays in the range of its direction. -/
def Cursor.Within (s : Side) (c : Cursor) : Prop := s.firstPdo ≤ c.pdo ∧ c.pdo ≤ s.lastPdo

theorem lays_flowOn (hs : s.lastPdo < UInt16.size) {first : Nat} {c : Cursor} (hc : c.Within s) :
    Lays s (Cursor.Within s) [] (flowOn o s first c) := by
  obtain ⟨hfirst, hlast⟩ := hc
  unfold flowOn
  split
  · exact lays_refuse _ []
  · split
    · exact lays_refuse _ []
    · next hgo =>
      have hnext : s.firstPdo ≤ c.pdo + 1 ∧ c.pdo + 1 ≤ s.lastPdo := by omega
      exact (lays_addPdo hs hnext.1 hnext.2).bind fun _ _ => lays_pure hnext

theorem lays_addEntries (hs : s.lastPdo < UInt16.size) {first : Nat} {es : List Entry} {c : Cursor}
    (hc : c.Within s) : Lays s (fun _ => True) es (addEntries o s first c es) := by
  induction es generalizing c with
  | nil => exact lays_pure trivial
  | cons e es ih =>
    have hgo (c : Cursor) (hc : c.Within s) : Lays s (fun _ => True) (e :: es) (do
        Builder.addEntry e
        addEntries o s first { c with filled := c.filled + 1 } es) :=
      (lays_addEntry e).bind fun _ _ => ih hc
    rw [addEntries]
    split
    · exact (lays_flowOn hs hc).bind hgo
    · exact (lays_pure hc).bind hgo

theorem lays_firstPdo (channel : Nat) :
    Lays s (fun first => s.firstPdo ≤ first ∧ first ≤ s.lastPdo) [] (firstPdo o s channel) := by
  dsimp only [firstPdo]
  split
  · next h => exact lays_pure ⟨Nat.le_add_right .., Nat.add_le_add_left h _⟩
  · exact lays_refuse _ []

theorem lays_addChannel (hs : s.lastPdo < UInt16.size) (channel : Nat) (enabled : FeatureSet) :
    Lays s (fun _ => True) (s.entries channel enabled) (addChannel o s channel enabled) := by
  refine (lays_firstPdo channel).bind fun first hfirst => ?_
  have hadd : Lays s (fun _ => True) (s.entries channel enabled) (do
      addPdo first
      addEntries o s first ⟨first, 1, 0⟩ (s.entries channel enabled)) :=
    (lays_addPdo hs hfirst.1 hfirst.2).bind fun _ _ => lays_addEntries hs hfirst
  split
  · exact (lays_refuse (V := fun _ => True) _ []).bind fun _ _ => hadd
  · exact hadd

/-- All that a direction maps, each entry with its channel. -/
def demands (o : Options) (s : Side) : List (Nat × Entry) :=
  o.active.zipIdx.flatMap fun (c, channel) =>
    (s.entries channel c.requested.resolve).map fun e => (channel, e)

theorem lays_addSide (hs : s.lastPdo < UInt16.size) :
    Lays s (fun _ => True) ((demands o s).map Prod.snd) (addSide o s) := by
  have hmap : (demands o s).map Prod.snd =
      o.active.zipIdx.flatMap fun p => s.entries p.2 p.1.requested.resolve := by
    rw [demands, List.map_flatMap]
    congr 1
    funext p
    rw [List.map_map]
    exact List.map_id _
  rw [hmap]
  exact (lays_addManager _ _).bind fun _ _ => lays_forM fun p _ => lays_addChannel hs p.2 _

/-- The entries of a channel stand in its block of objects. -/
theorem block_of_mem_demands (hw : s.word.toNat < 0x800) {c : Nat} {e : Entry}
    (h : (c, e) ∈ demands o s) :
    c < 8 ∧ 0x6000 + 0x800 * c ≤ e.address.index.toNat ∧
      e.address.index.toNat < 0x6000 + 0x800 * (c + 1) := by
  obtain ⟨⟨opts, channel⟩, hp, he⟩ := List.mem_flatMap.1 h
  obtain ⟨_, hmem, heq⟩ := List.mem_map.1 he
  cases heq
  have hc : c < Param.maxChannels := by
    have hlt := (List.mem_zipIdx hp).2.1
    rw [Nat.zero_add, o.length_active] at hlt
    omega
  have hbase := toNat_base hc
  have hc : c < 8 := hc
  have hblock (offset : UInt16) (ho : offset.toNat < 0x800) :
      (base c + offset).toNat = 0x6000 + 0x800 * c + offset.toNat := by
    rw [UInt16.toNat_add, hbase]
    omega
  rcases List.mem_cons.1 hmem with rfl | hmem
  · have hindex := hblock s.word hw
    simp only
    omega
  · obtain ⟨⟨f, d⟩, hd, rfl⟩ := List.mem_map.1 hmem
    have hoffset := Feature.offset_lt (FeatureSet.mem_objects.1 hd).2.1
    have hindex := hblock d.offset hoffset
    simp only [DriveObject.index]
    omega

end Drive

end Axis.Layout

end ServoBus
