import ServoBus.Pin.Storage
import ServoBus.Proofs.Pin.Table

/-!
# Stored pins and their directory

Pins are added and set in any order, also under names that are taken or that no pin has. What all
these operations do to a storage is one of three things: nothing, a pin at the end, or another value
at one place (`Storage.Change`). So the directory and the pins agree at any time, a pin stays what
it was added as but for its value, and the value stays of its type. A pin table does the same
without a directory.
-/

namespace ServoBus.Pin

inductive Operation where
  | add (name : String) (kind : Kind) (direction : Direction)
  | put (ref : PinRef) (v : Value)
  | putRaw (ref : PinRef) (raw : Int)
  | putNamed (name : String) (v : Value)
deriving DecidableEq, Repr

namespace Operation

/-- What an operation gives: a reference to the pin that it added, if it did so. -/
abbrev Answer := Except Fault (Option PinRef)

/-- The reference to a pin that an operation is given. -/
def ref? : Operation → Option PinRef
  | put ref _ | putRaw ref _ => some ref
  | add .. | putNamed .. => none

/-- An operation with its answer. -/
abbrev Answered := Operation × Answer

/-- Operations that were carried out one after the other, and what they made of a state. -/
inductive Run {σ : Type} (perform : Operation → σ → Option (Answer × σ)) (start : σ) :
    List Answered → σ → Prop
  | nil : Run perform start [] start
  | concat {done s op answer t} : Run perform start done s → perform op s = some (answer, t) →
      Run perform start (done ++ [(op, answer)]) t

end Operation

open Operation (Answer Answered Run)

namespace Slot

/-- The pin that is stored. -/
def pin (slot : Slot) : Pin := ⟨slot.name, slot.direction, slot.value⟩

def shape (slot : Slot) : Shape := ⟨slot.name, slot.direction, slot.kind⟩

end Slot

namespace Storage

def perform (op : Operation) (s : Storage) : Option (Answer × Storage) :=
  match op with
  | .add name kind direction =>
    let x := (add name kind direction).result s
    some (x.1.map some, x.2)
  | .put ref v => (s.put? ref v).map (.ok none, ·)
  | .putRaw ref raw => (s.putRaw? ref raw).map (.ok none, ·)
  | .putNamed name v =>
    (s.putNamed? name v).map fun
      | .ok t => (.ok none, t)
      | .error e => (.error e, s)

/-- The storage with another value in one of its slots. -/
def replace (s : Storage) (ref : PinRef) (slot : Slot) (v : Value) : Storage :=
  { s with slots := s.slots.set ref.index { slot with value := v } }

/-- What an operation may do to a storage. -/
inductive Change (s : Storage) : Operation → Answer → Storage → Prop
  | refused {op e} : Change s op (.error e) s
  | added {name kind direction} : s.find? name = none →
      Change s (.add name kind direction) (.ok (some ⟨s.size⟩)) (s.push name kind direction)
  | replaced {op ref slot v} : s.slot? ref = some slot → v.kind = slot.kind →
      Change s op (.ok none) (s.replace ref slot v)

variable {s t : Storage} {ref : PinRef} {slot : Slot} {name : String} {op : Operation}
  {answer : Answer}

/-! ### Single operations -/

theorem perform_add_of_taken (kind : Kind) (direction : Direction)
    (h : s.find? name = some ref) :
    s.perform (.add name kind direction) = some (.error (.duplicatePin name), s) := by
  have hcontains : s.places.contains name = true := by
    rw [Std.HashMap.contains_eq_isSome_getElem?, ← find?, h]
    rfl
  rw [perform, add, Action.result_bind]
  simp only [Action.result_get]
  rw [if_pos hcontains]
  rfl

theorem perform_add_of_free (kind : Kind) (direction : Direction) (h : s.find? name = none) :
    s.perform (.add name kind direction) =
      some (.ok (some ⟨s.size⟩), s.push name kind direction) := by
  have hcontains : ¬ s.places.contains name = true := by
    rw [Std.HashMap.contains_eq_isSome_getElem?, ← find?, h]
    nofun
  rw [perform, add, Action.result_bind]
  simp only [Action.result_get]
  rw [if_neg hcontains]
  rfl

theorem store?_of_slot? (h : s.slot? ref = some slot) (value : Kind → Value) :
    s.store? ref value = some (s.replace ref slot (value slot.kind)) := by
  rw [store?, h]
  rfl

theorem perform_put (h : s.slot? ref = some slot) (v : Value) :
    s.perform (.put ref v) = some (.ok none, s.replace ref slot (v.convert slot.kind)) := by
  rw [perform, put?, store?_of_slot? h]
  rfl

theorem perform_putRaw (h : s.slot? ref = some slot) (raw : Int) :
    s.perform (.putRaw ref raw) = some (.ok none, s.replace ref slot (.ofRaw slot.kind raw)) := by
  rw [perform, putRaw?, store?_of_slot? h]
  rfl

theorem perform_putNamed_of_known (h : s.find? name = some ref) (v : Value) :
    s.perform (.putNamed name v) = s.perform (.put ref v) := by
  simp only [perform, putNamed?, h, Option.map_map]
  rfl

theorem perform_putNamed_of_unknown (h : s.find? name = none) (v : Value) :
    s.perform (.putNamed name v) = some (.error (.unknownPin name), s) := by
  simp only [perform, putNamed?, h]
  rfl

/-- A reference to no pin is what keeps an operation from having a result. -/
theorem perform_of_slot?_eq_none (href : op.ref? = some ref) (h : s.slot? ref = none) :
    s.perform op = none := by
  cases op with
  | put r v =>
    cases href
    simp only [perform, put?, store?, h, Option.map_none]
  | putRaw r raw =>
    cases href
    simp only [perform, putRaw?, store?, h, Option.map_none]
  | add => cases href
  | putNamed => cases href

theorem slot?_of_perform (href : op.ref? = some ref) (h : s.perform op = some (answer, t)) :
    ∃ slot, s.slot? ref = some slot := by
  refine Option.ne_none_iff_exists'.1 fun hslot => ?_
  rw [perform_of_slot?_eq_none href hslot] at h
  cases h

theorem change_put {v : Value} (h : s.perform (.put ref v) = some (answer, t)) (op : Operation) :
    s.Change op answer t := by
  obtain ⟨slot, hslot⟩ := slot?_of_perform rfl h
  rw [perform_put hslot] at h
  cases h
  exact .replaced hslot (Value.kind_convert ..)

theorem change_perform (h : s.perform op = some (answer, t)) : s.Change op answer t := by
  cases op with
  | add name kind direction =>
    cases hfind : s.find? name with
    | none =>
      rw [perform_add_of_free kind direction hfind] at h
      cases h
      exact .added hfind
    | some ref =>
      rw [perform_add_of_taken kind direction hfind] at h
      cases h
      exact .refused
  | put ref v => exact change_put h _
  | putRaw ref raw =>
    obtain ⟨slot, hslot⟩ := slot?_of_perform rfl h
    rw [perform_putRaw hslot] at h
    cases h
    exact .replaced hslot (Value.kind_ofRaw ..)
  | putNamed name v =>
    cases hfind : s.find? name with
    | none =>
      rw [perform_putNamed_of_unknown hfind] at h
      cases h
      exact .refused
    | some ref =>
      rw [perform_putNamed_of_known hfind] at h
      exact change_put h _

/-! ### Places and names -/

theorem slot?_push (s : Storage) (name : String) (kind : Kind) (direction : Direction)
    (ref : PinRef) :
    (s.push name kind direction).slot? ref =
      if ref = ⟨s.size⟩ then some ⟨name, kind, direction, .zero kind⟩ else s.slot? ref := by
  obtain ⟨i⟩ := ref
  simp only [slot?, push, size, PinRef.mk.injEq]
  rcases Nat.lt_trichotomy i s.slots.length with hlt | heq | hgt
  · rw [List.getElem?_append_left hlt, if_neg (Nat.ne_of_lt hlt)]
  · rw [if_pos heq, heq]
    exact List.getElem?_concat_length ..
  · rw [if_neg (Nat.ne_of_gt hgt), List.getElem?_eq_none (Nat.le_of_lt hgt)]
    refine List.getElem?_eq_none ?_
    rw [List.length_append]
    exact hgt

theorem find?_push (s : Storage) (name other : String) (kind : Kind) (direction : Direction) :
    (s.push name kind direction).find? other =
      if name = other then some ⟨s.size⟩ else s.find? other := by
  rw [find?, push, Std.HashMap.getElem?_insert]
  simp only [beq_iff_eq, find?]

theorem slot?_replace (h : s.slot? ref = some slot) (v : Value) (other : PinRef) :
    (s.replace ref slot v).slot? other =
      if other = ref then some { slot with value := v } else s.slot? other := by
  obtain ⟨i⟩ := ref
  obtain ⟨j⟩ := other
  have hlt : i < s.slots.length := (List.getElem?_eq_some_iff.1 h).1
  simp only [slot?, replace, PinRef.mk.injEq, List.getElem?_set]
  by_cases hji : j = i
  · rw [if_pos hji, if_pos hji.symm, if_pos hlt]
  · rw [if_neg hji, if_neg (Ne.symm hji)]

theorem slot?_eq_none_of_size_le (h : s.size ≤ ref.index) : s.slot? ref = none :=
  List.getElem?_eq_none h

/-- The directory and the pins agree, and the values are of the types of their pins. -/
structure Indexed (s : Storage) : Prop where
  find : ∀ name ref, s.find? name = some ref ↔ ∃ slot, s.slot? ref = some slot ∧ slot.name = name
  typed : ∀ ref slot, s.slot? ref = some slot → slot.value.kind = slot.kind

theorem indexed_empty : Indexed {} where
  find name ref := by
    have hfind : find? {} name = none := Std.HashMap.getElem?_empty
    have hslot : slot? {} ref = none := rfl
    simp [hfind, hslot]
  typed ref slot h := by cases h

theorem Indexed.push (hs : s.Indexed) (kind : Kind) (direction : Direction)
    (h : s.find? name = none) : (s.push name kind direction).Indexed where
  find other ref := by
    rw [find?_push, slot?_push]
    by_cases href : ref = ⟨s.size⟩
    · have hlast : s.slot? ref = none := by
        rw [href]
        exact slot?_eq_none_of_size_le (Nat.le_refl _)
      have hother : s.find? other ≠ some ref := by
        rw [Ne, hs.find, hlast]
        nofun
      by_cases hname : name = other
      · simp [href, hname]
      · simp [href, hname, href ▸ hother]
    · by_cases hname : name = other
      · have hfree : ¬ ∃ slot, s.slot? ref = some slot ∧ slot.name = other := by
          rw [← hs.find, ← hname, h]
          nofun
        simp [Ne.symm href, href, hname, hfree]
      · rw [if_neg hname, if_neg href, hs.find]
  typed ref slot hslot := by
    rw [slot?_push] at hslot
    split at hslot
    · cases hslot
      exact Value.kind_zero kind
    · exact hs.typed ref slot hslot

theorem Indexed.replace (hs : s.Indexed) (h : s.slot? ref = some slot) {v : Value}
    (hv : v.kind = slot.kind) : (s.replace ref slot v).Indexed where
  find name other := by
    have hfind : (s.replace ref slot v).find? name = s.find? name := rfl
    rw [hfind, hs.find, slot?_replace h]
    by_cases hother : other = ref
    · simp [hother, h]
    · rw [if_neg hother]
  typed other slot' hslot := by
    rw [slot?_replace h] at hslot
    split at hslot
    · cases hslot
      exact hv
    · exact hs.typed other slot' hslot

theorem Indexed.change (hs : s.Indexed) (h : s.Change op answer t) : t.Indexed := by
  cases h with
  | refused => exact hs
  | added hfree => exact hs.push _ _ hfree
  | replaced hslot hv => exact hs.replace hslot hv

/-- No two pins have one name. -/
theorem Indexed.nodup_names (hs : s.Indexed) : (s.slots.map (·.name)).Nodup := by
  rw [List.nodup_iff_pairwise_ne, List.pairwise_map, List.pairwise_iff_getElem]
  intro i j hi hj hij heq
  have hfirst := (hs.find s.slots[j].name ⟨i⟩).2 ⟨_, List.getElem?_eq_getElem hi, heq⟩
  have hsecond := (hs.find s.slots[j].name ⟨j⟩).2 ⟨_, List.getElem?_eq_getElem hj, rfl⟩
  rw [hfirst] at hsecond
  cases hsecond
  exact Nat.lt_irrefl _ hij

/-- An operation has no result only if it is given a reference to no pin. -/
theorem Indexed.perform_eq_none_iff (hs : s.Indexed) :
    s.perform op = none ↔ ∃ ref, op.ref? = some ref ∧ s.slot? ref = none := by
  refine ⟨fun h => ?_, fun ⟨ref, href, hslot⟩ => perform_of_slot?_eq_none href hslot⟩
  cases op with
  | add name kind direction =>
    cases hfind : s.find? name with
    | none =>
      rw [perform_add_of_free kind direction hfind] at h
      cases h
    | some ref =>
      rw [perform_add_of_taken kind direction hfind] at h
      cases h
  | put ref v =>
    refine ⟨ref, rfl, Option.eq_none_iff_forall_ne_some.2 fun slot hslot => ?_⟩
    rw [perform_put hslot] at h
    cases h
  | putRaw ref raw =>
    refine ⟨ref, rfl, Option.eq_none_iff_forall_ne_some.2 fun slot hslot => ?_⟩
    rw [perform_putRaw hslot] at h
    cases h
  | putNamed name v =>
    cases hfind : s.find? name with
    | none =>
      rw [perform_putNamed_of_unknown hfind] at h
      cases h
    | some ref =>
      obtain ⟨slot, hslot, -⟩ := (hs.find name ref).1 hfind
      rw [perform_putNamed_of_known hfind, perform_put hslot] at h
      cases h

/-! ### Pins that stay -/

/-- A pin keeps its place, and all but its value. -/
theorem Change.slot?_eq (h : s.Change op answer t) (hslot : s.slot? ref = some slot) :
    ∃ v, t.slot? ref = some { slot with value := v } := by
  cases h with
  | refused => exact ⟨slot.value, hslot⟩
  | added =>
    have hne : ref ≠ ⟨s.size⟩ := by
      rintro rfl
      have hnone : s.slot? ⟨s.size⟩ = none := slot?_eq_none_of_size_le (Nat.le_refl _)
      rw [hnone] at hslot
      cases hslot
    rw [slot?_push, if_neg hne]
    exact ⟨slot.value, hslot⟩
  | @replaced _ other slot' v hother hv =>
    rw [slot?_replace hother]
    by_cases href : ref = other
    · rw [href, hother] at hslot
      cases hslot
      exact ⟨v, if_pos href⟩
    · exact ⟨slot.value, by rw [if_neg href, hslot]⟩

theorem slot?_of_run {done : List Answered} (h : Run perform s done t)
    (hslot : s.slot? ref = some slot) : ∃ v, t.slot? ref = some { slot with value := v } := by
  induction h with
  | nil => exact ⟨slot.value, hslot⟩
  | concat _ hop ih =>
    obtain ⟨v, hv⟩ := ih
    obtain ⟨v', hv'⟩ := (change_perform hop).slot?_eq hv
    exact ⟨v', hv'⟩

end Storage

/-- The pins that were added, in their order, each with the reference that was given for it. -/
def added (done : List Answered) : List (Shape × PinRef) :=
  done.filterMap fun
    | (.add name kind direction, .ok (some ref)) => some (⟨name, direction, kind⟩, ref)
    | _ => none

namespace Storage

/-- The pins in their order, each with its place. -/
def placed (s : Storage) : List (Shape × PinRef) :=
  s.slots.mapIdx fun i slot => (slot.shape, ⟨i⟩)

variable {s t : Storage} {ref : PinRef} {slot : Slot} {op : Operation} {answer : Answer}
  {done : List Answered}

theorem placed_push (s : Storage) (name : String) (kind : Kind) (direction : Direction) :
    (s.push name kind direction).placed =
      s.placed ++ [(⟨name, direction, kind⟩, ⟨s.size⟩)] := by
  rw [placed, push, List.mapIdx_concat]
  rfl

theorem placed_replace (h : s.slot? ref = some slot) (v : Value) :
    (s.replace ref slot v).placed = s.placed := by
  refine List.ext_getElem? fun i => ?_
  have hi := slot?_replace h v ⟨i⟩
  simp only [slot?] at hi h
  rw [placed, placed, List.getElem?_mapIdx, List.getElem?_mapIdx, hi]
  split
  · next heq =>
    rw [← heq] at h
    rw [h]
    rfl
  · rfl

theorem added_of_run (h : Run perform {} done s) : added done = s.placed := by
  induction h with
  | nil => rfl
  | @concat done s op answer t _ hop ih =>
    rw [added, List.filterMap_append, ← added, ih]
    cases change_perform hop with
    | refused =>
      rw [List.filterMap_cons_none (by cases op <;> rfl), List.filterMap_nil, List.append_nil]
    | added =>
      rw [placed_push]
      rfl
    | replaced hslot _ =>
      rw [List.filterMap_cons_none (by cases op <;> rfl), List.filterMap_nil, List.append_nil,
        placed_replace hslot]

theorem indexed_of_run (h : Run perform {} done s) : s.Indexed := by
  induction h with
  | nil => exact indexed_empty
  | concat _ hop ih => exact ih.change (change_perform hop)

end Storage

end ServoBus.Pin
