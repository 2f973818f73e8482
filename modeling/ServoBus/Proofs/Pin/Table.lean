import ServoBus.Pin.Table
import ServoBus.Proofs.Action.Moves
import ServoBus.Proofs.Action.Success

/-!
# Pins by place and by name

What a pin is apart from its value is its `Shape`. Putting values into a table leaves the
shapes alone, and adding a pin puts one more at their end, so `Grows` relates the tables
before and after any action on pins. As names are distinct, the pin at a place is the one
that the host finds under its name.
-/

namespace ServoBus

/-- A pin without its value. -/
structure Pin.Shape where
  name : String
  direction : Pin.Direction
  kind : Pin.Kind
deriving DecidableEq, Repr

def Pin.shape (p : Pin) : Pin.Shape := ⟨p.name, p.direction, p.kind⟩

/-- A value of this kind is a bit. -/
theorem Pin.Value.exists_of_kind_eq_bit {v : Pin.Value} (h : v.kind = .bit) :
    ∃ on, v = .bit on := by
  cases v with
  | bit on => exact ⟨on, rfl⟩
  | s32 w => cases h
  | u32 w => cases h
  | float y => cases h

namespace PinTable

def shapes (t : PinTable) : List Pin.Shape := t.pins.map (·.shape)

def names (t : PinTable) : List String := t.shapes.map (·.name)

theorem length_shapes (t : PinTable) : t.shapes.length = t.size := List.length_map _

/-- The pin at a place has this shape. -/
def Has (t : PinTable) (ref : PinRef) (s : Pin.Shape) : Prop := t.shapes[ref.index]? = some s

theorem shapes_modify {t : PinTable} {ref : PinRef} {f : Pin → Pin}
    (hf : ∀ p, (f p).shape = p.shape) : (t.modify ref f).shapes = t.shapes := by
  apply List.ext_getElem?
  intro i
  simp only [shapes, modify, List.getElem?_map, List.getElem?_modify]
  cases t.pins[i]? with
  | none => rfl
  | some p =>
    by_cases h : ref.index = i
    · simp [h, hf]
    · simp [h]

@[simp] theorem shapes_put (t : PinTable) (ref : PinRef) (v : Pin.Value) :
    (t.put ref v).shapes = t.shapes := by
  apply shapes_modify
  intro p
  rw [Pin.shape, Pin.name_put, Pin.direction_put, Pin.kind_put]
  rfl

@[simp] theorem shapes_putRaw (t : PinTable) (ref : PinRef) (raw : Int) :
    (t.putRaw ref raw).shapes = t.shapes := by
  apply shapes_modify
  intro p
  rw [Pin.shape, Pin.name_putRaw, Pin.kind_putRaw]
  rfl

@[simp] theorem shapes_push (t : PinTable) (name : String) (kind : Pin.Kind)
    (direction : Pin.Direction) :
    (t.push name kind direction).shapes = t.shapes ++ [⟨name, direction, kind⟩] := by
  simp [shapes, push, Pin.shape, Pin.kind]

theorem shapes_putNamed {t t' : PinTable} {name : String} {v : Pin.Value}
    (h : t.putNamed name v = .ok t') : t'.shapes = t.shapes := by
  unfold putNamed at h
  split at h
  · cases h
    exact shapes_put ..
  · cases h

theorem find?_isSome_iff {t : PinTable} {name : String} :
    (t.find? name).isSome = true ↔ name ∈ t.names := by
  simp [find?, names, shapes, Pin.shape, List.findIdx?_isSome]

/-- A pin is added if its name is not taken, and otherwise nothing is done. -/
theorem result_add (name : String) (kind : Pin.Kind) (direction : Pin.Direction) (t : PinTable) :
    (add name kind direction).result t =
      if (t.find? name).isSome then (.error (.duplicatePin name), t)
      else (.ok ⟨t.size⟩, t.push name kind direction) := by
  rw [add, Action.result_bind]
  simp only [Action.result_get]
  by_cases h : (t.find? name).isSome = true
  · rw [if_pos h, if_pos h]
    rfl
  · rw [if_neg h, if_neg h]
    rfl

theorem result_add_eq_ok_iff {name : String} {kind : Pin.Kind} {direction : Pin.Direction}
    {t t' : PinTable} {ref : PinRef} :
    (add name kind direction).result t = (.ok ref, t') ↔
      name ∉ t.names ∧ ref = ⟨t.size⟩ ∧ t' = t.push name kind direction := by
  rw [result_add, ← find?_isSome_iff]
  split
  · next h => simp [h]
  · next h =>
    constructor
    · intro hr
      cases hr
      exact ⟨h, rfl, rfl⟩
    · rintro ⟨-, rfl, rfl⟩
      rfl

/-- Pins were added, under new names, and none was changed but for its value. -/
def Grows (t t' : PinTable) : Prop :=
  t.shapes <+: t'.shapes ∧ (t.names.Nodup → t'.names.Nodup)

instance : IsPreorder PinTable Grows where
  refl _ := ⟨List.prefix_rfl, id⟩
  trans _ _ _ h h' := ⟨h.1.trans h'.1, h'.2 ∘ h.2⟩

theorem Grows.of_shapes_eq {t t' : PinTable} (h : t'.shapes = t.shapes) : Grows t t' := by
  constructor
  · exact ⟨[], by rw [h, List.append_nil]⟩
  · intro hn
    rw [names, h]
    exact hn

theorem Grows.has {t t' : PinTable} (h : Grows t t') {ref : PinRef} {s : Pin.Shape}
    (hs : t.Has ref s) : t'.Has ref s := by
  obtain ⟨rest, hrest⟩ := h.1
  have hlt := (List.getElem?_eq_some_iff.1 hs).1
  rw [Has, ← hrest, List.getElem?_append_left hlt]
  exact hs

theorem grows_push {t : PinTable} {name : String} (kind : Pin.Kind) (direction : Pin.Direction)
    (h : name ∉ t.names) : Grows t (t.push name kind direction) := by
  constructor
  · rw [shapes_push]
    exact List.prefix_append ..
  · intro hn
    rw [names, shapes_push, List.map_append, List.nodup_append]
    refine ⟨hn, List.pairwise_singleton _ _, ?_⟩
    intro a ha b hb hab
    simp only [List.map_cons, List.map_nil, List.mem_singleton] at hb
    rw [hab, hb] at ha
    exact h ha

theorem moves_add (name : String) (kind : Pin.Kind) (direction : Pin.Direction) :
    Action.Moves Grows (add name kind direction) := by
  intro t
  rw [result_add]
  split
  · exact refl_of Grows t
  · next h => exact grows_push kind direction (mt find?_isSome_iff.2 h)

theorem has_push (t : PinTable) (name : String) (kind : Pin.Kind) (direction : Pin.Direction) :
    (t.push name kind direction).Has ⟨t.size⟩ ⟨name, direction, kind⟩ := by
  rw [Has, shapes_push, ← length_shapes]
  exact List.getElem?_concat_length ..

/-- Pins of one name are one pin. -/
theorem has_inj {t : PinTable} (hn : t.names.Nodup) {ref ref' : PinRef} {s s' : Pin.Shape}
    (h : t.Has ref s) (h' : t.Has ref' s') (hname : s.name = s'.name) : ref = ref' := by
  have hi : t.names[ref.index]? = some s.name := by
    rw [names, List.getElem?_map, h]
    rfl
  have hj : t.names[ref'.index]? = some s.name := by
    rw [names, List.getElem?_map, h', hname]
    rfl
  have hlt := (List.getElem?_eq_some_iff.1 hi).1
  have heq := (List.getElem?_inj hlt hn).1 (hi.trans hj.symm)
  cases ref
  cases ref'
  exact congrArg PinRef.mk heq

theorem has_of_pin? {t : PinTable} {ref : PinRef} {p : Pin} (h : t.pin? ref = some p) :
    t.Has ref p.shape := by
  rw [Has, shapes, List.getElem?_map, ← pin?, h]
  rfl

theorem exists_pin?_of_has {t : PinTable} {ref : PinRef} {s : Pin.Shape} (h : t.Has ref s) :
    ∃ p, t.pin? ref = some p ∧ p.shape = s := by
  rw [Has, shapes, List.getElem?_map, Option.map_eq_some_iff] at h
  exact h

theorem find?_eq (t : PinTable) (name : String) :
    t.find? name = (t.names.findIdx? (· == name)).map PinRef.mk := by
  rw [find?, names, shapes, List.map_map, List.findIdx?_map]
  rfl

/-- What the host sees under a name changes only if the pin does. -/
theorem value?_congr {t t' : PinTable} (h : t'.shapes = t.shapes) {name : String}
    (hpin : ∀ ref s, t.Has ref s → s.name = name → t'.pin? ref = t.pin? ref) :
    t'.value? name = t.value? name := by
  have hfind : t'.find? name = t.find? name := by rw [find?_eq, find?_eq, names, names, h]
  rw [value?, value?, hfind]
  cases hf : t.find? name with
  | none => rfl
  | some ref =>
    obtain ⟨i, hi, rfl⟩ := Option.map_eq_some_iff.1 hf
    obtain ⟨hlt, hname, -⟩ := List.findIdx?_eq_some_iff_getElem.1 hi
    have hhas : t.Has ⟨i⟩ t.pins[i].shape := has_of_pin? (List.getElem?_eq_getElem hlt)
    rw [Option.bind_some, Option.bind_some, hpin _ _ hhas (beq_iff_eq.1 hname)]

theorem raw_of_pin? {t : PinTable} {ref : PinRef} {p : Pin} (h : t.pin? ref = some p) :
    t.raw ref = p.value.raw := by
  rw [raw, h]
  rfl

theorem mem_names_of_pin? {t : PinTable} {ref : PinRef} {p : Pin} (h : t.pin? ref = some p) :
    p.name ∈ t.names := by
  rw [names, shapes, List.map_map]
  exact List.mem_map_of_mem (List.mem_of_getElem? h)

/-- A pin is found under its name. -/
theorem find?_of_pin? {t : PinTable} (hn : t.names.Nodup) {ref : PinRef} {p : Pin}
    (h : t.pin? ref = some p) : t.find? p.name = some ref := by
  obtain ⟨ref', hfind⟩ := Option.isSome_iff_exists.1 (find?_isSome_iff.2 (mem_names_of_pin? h))
  obtain ⟨j, hj, rfl⟩ := Option.map_eq_some_iff.1 hfind
  obtain ⟨hjlt, hjname, -⟩ := List.findIdx?_eq_some_iff_getElem.1 hj
  have hq : t.Has ⟨j⟩ t.pins[j].shape := has_of_pin? (List.getElem?_eq_getElem hjlt)
  rw [hfind, has_inj hn (has_of_pin? h) hq (beq_iff_eq.1 hjname).symm]

/-- The host sees the value of a pin under its name. -/
theorem value?_of_pin? {t : PinTable} (hn : t.names.Nodup) {ref : PinRef} {p : Pin}
    (h : t.pin? ref = some p) : t.value? p.name = some p.value := by
  rw [value?, find?_of_pin? hn h]
  exact congrArg (Option.map (·.value)) h

theorem value?_of_not_mem {t : PinTable} {name : String} (h : name ∉ t.names) :
    t.value? name = none := by
  have hfind : t.find? name = none := Option.not_isSome_iff_eq_none.1 (mt find?_isSome_iff.1 h)
  rw [value?, hfind]
  rfl

theorem value?_of_has {t : PinTable} (hn : t.names.Nodup) {ref : PinRef} {s : Pin.Shape}
    (h : t.Has ref s) :
    ∃ v, t.value? s.name = some v ∧ v.kind = s.kind ∧ t.raw ref = v.raw := by
  obtain ⟨p, hp, rfl⟩ := exists_pin?_of_has h
  exact ⟨p.value, value?_of_pin? hn hp, rfl, raw_of_pin? hp⟩

end PinTable

end ServoBus
