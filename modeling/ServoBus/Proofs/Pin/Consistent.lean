import ServoBus.Proofs.Pin.Storage

/-!
# Pins with and without a directory

A pin table has the pins of a storage and no directory. It carries out the same operations with the
same answers, and it finds the same pins under a name. So whatever holds of stored pins after any
operations (`Storage.Consistent`) is what a pin table does.
-/

namespace ServoBus.Pin

open Operation (Answer Answered Run)

/-- Carries out an operation on a table. A reference to no pin is passed over. -/
def Operation.onTable (op : Operation) (t : PinTable) : Answer × PinTable :=
  match op with
  | add name kind direction =>
    let x := (PinTable.add name kind direction).result t
    (x.1.map some, x.2)
  | put ref v => (.ok none, t.put ref v)
  | putRaw ref raw => (.ok none, t.putRaw ref raw)
  | putNamed name v =>
    match t.putNamed name v with
    | .ok t' => (.ok none, t')
    | .error e => (.error e, t)

namespace Storage

variable {s t : Storage} {ref : PinRef} {slot : Slot} {name : String} {op : Operation}
  {answer : Answer} {done : List Answered}

def table (s : Storage) : PinTable := ⟨s.slots.map (·.pin)⟩

theorem size_table (s : Storage) : s.table.size = s.size := List.length_map _

theorem pin?_table (s : Storage) (ref : PinRef) : s.table.pin? ref = (s.slot? ref).map (·.pin) :=
  List.getElem?_map

theorem names_table (s : Storage) : s.table.names = s.slots.map (·.name) := by
  simp only [PinTable.names, PinTable.shapes, table, List.map_map]
  rfl

theorem Indexed.find?_table (hs : s.Indexed) (name : String) :
    s.table.find? name = s.find? name := by
  cases hfind : s.find? name with
  | some ref =>
    obtain ⟨slot, hslot, rfl⟩ := (hs.find name ref).1 hfind
    have hnodup : s.table.names.Nodup := by
      rw [names_table]
      exact hs.nodup_names
    have hpin : s.table.pin? ref = some slot.pin := by rw [pin?_table, hslot, Option.map_some]
    exact PinTable.find?_of_pin? hnodup hpin
  | none =>
    rw [← Option.not_isSome_iff_eq_none, PinTable.find?_isSome_iff, names_table, List.mem_map]
    rintro ⟨slot, hmem, rfl⟩
    obtain ⟨i, hi⟩ := List.mem_iff_getElem?.1 hmem
    have hknown := (hs.find slot.name ⟨i⟩).2 ⟨slot, hi, rfl⟩
    rw [hfind] at hknown
    cases hknown

theorem table_push (s : Storage) (name : String) (kind : Kind) (direction : Direction) :
    (s.push name kind direction).table = s.table.push name kind direction := by
  simp only [table, push, PinTable.push, List.map_append]
  rfl

theorem table_replace (h : s.slot? ref = some slot) {f : Pin → Pin} {v : Value}
    (hf : f slot.pin = { slot.pin with value := v }) :
    (s.replace ref slot v).table = s.table.modify ref f := by
  have heq : ∀ other, (s.replace ref slot v).table.pin? other =
      (s.table.modify ref f).pin? other := by
    intro other
    rw [pin?_table, slot?_replace h, PinTable.pin?_modify, pin?_table]
    by_cases hother : other = ref
    · rw [if_pos hother, if_pos hother.symm, hother, h, Option.map_some, Option.map_some,
        Option.map_some, hf]
      rfl
    · rw [if_neg hother, if_neg (Ne.symm hother)]
  exact congrArg PinTable.mk (List.ext_getElem? fun i => heq ⟨i⟩)

theorem Indexed.table_put (hs : s.Indexed) (h : s.slot? ref = some slot) (v : Value) :
    (s.replace ref slot (v.convert slot.kind)).table = s.table.put ref v := by
  have hkind : slot.pin.kind = slot.kind := hs.typed ref slot h
  exact table_replace h (by rw [Pin.put, hkind])

theorem Indexed.table_putRaw (hs : s.Indexed) (h : s.slot? ref = some slot) (raw : Int) :
    (s.replace ref slot (.ofRaw slot.kind raw)).table = s.table.putRaw ref raw := by
  have hkind : slot.pin.kind = slot.kind := hs.typed ref slot h
  exact table_replace h (by rw [Pin.putRaw, hkind])

theorem Indexed.onTable_put (hs : s.Indexed) {v : Value}
    (h : s.perform (.put ref v) = some (answer, t)) :
    (Operation.put ref v).onTable s.table = (answer, t.table) := by
  obtain ⟨slot, hslot⟩ := slot?_of_perform rfl h
  rw [perform_put hslot] at h
  cases h
  rw [hs.table_put hslot]
  rfl

/-- A table gives the same answer, and it is left with the same pins. -/
theorem Indexed.onTable (hs : s.Indexed) (h : s.perform op = some (answer, t)) :
    op.onTable s.table = (answer, t.table) := by
  cases op with
  | add name kind direction =>
    rw [Operation.onTable, PinTable.result_add, hs.find?_table]
    cases hfind : s.find? name with
    | none =>
      rw [perform_add_of_free kind direction hfind] at h
      cases h
      rw [table_push, ← size_table]
      rfl
    | some ref =>
      rw [perform_add_of_taken kind direction hfind] at h
      cases h
      rfl
  | put ref v => exact hs.onTable_put h
  | putRaw ref raw =>
    obtain ⟨slot, hslot⟩ := slot?_of_perform rfl h
    rw [perform_putRaw hslot] at h
    cases h
    rw [hs.table_putRaw hslot]
    rfl
  | putNamed name v =>
    rw [Operation.onTable, PinTable.putNamed, hs.find?_table]
    cases hfind : s.find? name with
    | none =>
      rw [perform_putNamed_of_unknown hfind] at h
      cases h
      rfl
    | some ref =>
      rw [perform_putNamed_of_known hfind] at h
      exact hs.onTable_put h

/-- The operations that a table carries out, with the answers that the storage gives. -/
theorem table_run (h : Run perform {} done s) :
    Run (fun op t => some (op.onTable t)) {} done s.table := by
  induction h with
  | nil => exact .nil
  | concat hrun hop ih =>
    refine ih.concat ?_
    rw [(indexed_of_run hrun).onTable hop]

/-- A value was set at one place, and nothing else was done. -/
structure Sets (s : Storage) (ref : PinRef) (value : Kind → Value) (t : Storage) : Prop where
  own : t.slot? ref = (s.slot? ref).map fun slot => { slot with value := value slot.kind }
  others : ∀ other, other ≠ ref → t.slot? other = s.slot? other
  size : t.size = s.size
  find : ∀ name, t.find? name = s.find? name

theorem sets_replace (h : s.slot? ref = some slot) (value : Kind → Value) :
    s.Sets ref value (s.replace ref slot (value slot.kind)) where
  own := by rw [slot?_replace h, if_pos rfl, h, Option.map_some]
  others other hother := by rw [slot?_replace h, if_neg hother]
  size := List.length_set ..
  find _ := rfl

/-- What holds of a storage after these operations, and what each further operation does. -/
structure Consistent (done : List Answered) (s : Storage) : Prop where
  nodup : (s.slots.map (·.name)).Nodup
  find : ∀ name ref, s.find? name = some ref ↔ ∃ slot, s.slot? ref = some slot ∧ slot.name = name
  placed : added done = s.placed
  typed : ∀ ref slot, s.slot? ref = some slot → slot.value.kind = slot.kind
  lasting : ∀ later t, Run perform s later t → ∀ ref slot, s.slot? ref = some slot →
    ∃ v, t.slot? ref = some { slot with value := v }
  carried : ∀ op, s.perform op = none ↔ ∃ ref, op.ref? = some ref ∧ s.slot? ref = none
  add_free : ∀ name kind direction, s.find? name = none →
    s.perform (.add name kind direction) =
      some (.ok (some ⟨s.size⟩), s.push name kind direction)
  add_taken : ∀ name ref kind direction, s.find? name = some ref →
    s.perform (.add name kind direction) = some (.error (.duplicatePin name), s)
  put : ∀ ref slot v, s.slot? ref = some slot →
    ∃ t, s.perform (.put ref v) = some (.ok none, t) ∧ s.Sets ref v.convert t
  putRaw : ∀ ref slot raw, s.slot? ref = some slot →
    ∃ t, s.perform (.putRaw ref raw) = some (.ok none, t) ∧ s.Sets ref (.ofRaw · raw) t
  putNamed_known : ∀ name ref v, s.find? name = some ref →
    ∃ t, s.perform (.putNamed name v) = some (.ok none, t) ∧ s.Sets ref v.convert t
  putNamed_unknown : ∀ name v, s.find? name = none →
    s.perform (.putNamed name v) = some (.error (.unknownPin name), s)
  table : Run (fun op t => some (op.onTable t)) {} done s.table
  table_pin : ∀ ref, s.table.pin? ref = (s.slot? ref).map (·.pin)
  table_find : ∀ name, s.table.find? name = s.find? name

theorem consistent_of_run (h : Run perform {} done s) : Consistent done s := by
  have hs : s.Indexed := indexed_of_run h
  have hput : ∀ ref slot v, s.slot? ref = some slot →
      ∃ t, s.perform (.put ref v) = some (.ok none, t) ∧ s.Sets ref v.convert t :=
    fun ref slot v hslot => ⟨_, perform_put hslot v, sets_replace hslot v.convert⟩
  exact {
    nodup := hs.nodup_names
    find := hs.find
    placed := added_of_run h
    typed := hs.typed
    lasting := fun _ _ hlater _ _ hslot => slot?_of_run hlater hslot
    carried := fun _ => hs.perform_eq_none_iff
    add_free := fun _ kind direction hfree => perform_add_of_free kind direction hfree
    add_taken := fun _ _ kind direction htaken => perform_add_of_taken kind direction htaken
    put := hput
    putRaw := fun ref slot raw hslot =>
      ⟨_, perform_putRaw hslot raw, sets_replace hslot (.ofRaw · raw)⟩
    putNamed_known := by
      intro name ref v hknown
      obtain ⟨slot, hslot, -⟩ := (hs.find name ref).1 hknown
      rw [perform_putNamed_of_known hknown]
      exact hput ref slot v hslot
    putNamed_unknown := fun _ v hunknown => perform_putNamed_of_unknown hunknown v
    table := table_run h
    table_pin := pin?_table s
    table_find := hs.find?_table }

/-- A pin that is added, is not added a second time, and is set by its name. -/
theorem consistent_of_run_speed :
    Run perform {}
      [(.add "speed" .s32 .input, .ok (some ⟨0⟩)),
        (.add "speed" .bit .output, .error (.duplicatePin "speed")),
        (.putNamed "torque" (.bit true), .error (.unknownPin "torque")),
        (.putNamed "speed" (.u32 7), .ok none)]
      ((push {} "speed" .s32 .input).replace ⟨0⟩ ⟨"speed", .s32, .input, .s32 0⟩ (.s32 7)) ∧
    Consistent
      [(.add "speed" .s32 .input, .ok (some ⟨0⟩)),
        (.add "speed" .bit .output, .error (.duplicatePin "speed")),
        (.putNamed "torque" (.bit true), .error (.unknownPin "torque")),
        (.putNamed "speed" (.u32 7), .ok none)]
      ((push {} "speed" .s32 .input).replace ⟨0⟩ ⟨"speed", .s32, .input, .s32 0⟩ (.s32 7)) := by
  have hempty : ∀ name, find? {} name = none := fun _ => Std.HashMap.getElem?_empty
  have hknown : (push {} "speed" .s32 .input).find? "speed" = some ⟨0⟩ := by
    rw [find?_push, if_pos rfl]
    rfl
  have hunknown : (push {} "speed" .s32 .input).find? "torque" = none := by
    rw [find?_push, if_neg (by decide), hempty]
  have hadded := Run.nil.concat (perform_add_of_free .s32 .input (hempty "speed"))
  have htwice := hadded.concat (perform_add_of_taken .bit .output hknown)
  have hother := htwice.concat (perform_putNamed_of_unknown hunknown (.bit true))
  have hset : (push {} "speed" .s32 .input).perform (.putNamed "speed" (.u32 7)) =
      some (.ok none,
        (push {} "speed" .s32 .input).replace ⟨0⟩ ⟨"speed", .s32, .input, .s32 0⟩ (.s32 7)) := by
    rw [perform_putNamed_of_known hknown]
    exact perform_put rfl (.u32 7)
  exact ⟨hother.concat hset, consistent_of_run (hother.concat hset)⟩

end Storage

end ServoBus.Pin
