import ServoBus.Sync.Builder

/-!
# Building in the order of the wire

A builder keeps the latest node first. `Builder.ofWire` is the builder of a description
that is given in the order of the wire, and every builder is one. With it the operations
are equations on plain lists: a node goes to the end of its level, unless the level is
full.
-/

namespace ServoBus.Sync

namespace Builder

@[simp] theorem wirePdo_wirePdo (p : Pdo) : wirePdo (wirePdo p) = p := by
  simp [wirePdo]

@[simp] theorem wireManager_wireManager (m : Manager) : wireManager (wireManager m) = m := by
  have h : wirePdo ∘ wirePdo = id := by
    funext p
    exact wirePdo_wirePdo p
  simp [wireManager, h]

@[simp] theorem length_pdos_wireManager (m : Manager) :
    (wireManager m).pdos.length = m.pdos.length := by
  simp [wireManager]

@[simp] theorem length_entries_wireManager (m : Manager) :
    (wireManager m).entries.length = m.entries.length := by
  have h : (fun p : Pdo => p.entries.length) ∘ wirePdo = fun p => p.entries.length := by
    funext p
    simp [wirePdo]
  simp [wireManager, Manager.entries, List.length_flatMap, h]

/-- The number of PDOs does not depend on the order in which they are kept. -/
theorem pdoCount_eq (b : Builder) : b.pdoCount = b.pdos.length := by
  have h : (fun m : Manager => m.pdos.length) ∘ wireManager = fun m => m.pdos.length := by
    funext m
    exact length_pdos_wireManager m
  simp [pdoCount, pdos, managers, List.length_flatMap, h]

theorem entryCount_eq (b : Builder) : b.entryCount = b.entries.length := by
  have h : (fun m : Manager => m.entries.length) ∘ wireManager =
      fun m => m.entries.length := by
    funext m
    exact length_entries_wireManager m
  simp [entryCount, entries, managers, List.length_flatMap, h]

/-- The builder of a description in the order of the wire. -/
def ofWire (device : String) (failed : Bool) (ms : List Manager) : Builder :=
  ⟨device, (ms.map wireManager).reverse, failed⟩

@[simp] theorem managers_ofWire (device : String) (failed : Bool) (ms : List Manager) :
    (ofWire device failed ms).managers = ms := by
  have h : wireManager ∘ wireManager = id := by
    funext m
    exact wireManager_wireManager m
  simp [managers, ofWire, h]

@[simp] theorem failed_ofWire (device : String) (failed : Bool) (ms : List Manager) :
    (ofWire device failed ms).failed = failed := rfl

@[simp] theorem pdos_ofWire (device : String) (failed : Bool) (ms : List Manager) :
    (ofWire device failed ms).pdos = ms.flatMap (·.pdos) := by
  simp [pdos]

@[simp] theorem entries_ofWire (device : String) (failed : Bool) (ms : List Manager) :
    (ofWire device failed ms).entries = ms.flatMap (·.entries) := by
  simp [entries]

theorem result_addManager_ofWire (direction : Direction) (watchdog : Watchdog)
    (device : String) (failed : Bool) (ms : List Manager) :
    (addManager direction watchdog).result (ofWire device failed ms) =
      if managerLimit ≤ ms.length then
        (.error (.syncsFull device managerLimit), ofWire device true ms)
      else
        (.ok (), ofWire device failed (ms ++ [⟨ms.length, direction, watchdog, []⟩])) := by
  rw [result_addManager]
  simp [managerCount, ofWire, wireManager]

theorem result_addPdo_ofWire (index : UInt16) (device : String) (failed : Bool)
    (ms : List Manager) (m : Manager) :
    (addPdo index).result (ofWire device failed (ms ++ [m])) =
      if pdoLimit ≤ ((ms ++ [m]).flatMap (·.pdos)).length then
        (.error (.pdosFull device pdoLimit), ofWire device true (ms ++ [m]))
      else
        (.ok (), ofWire device failed (ms ++ [{ m with pdos := m.pdos ++ [⟨index, []⟩] }])) := by
  rw [result_addPdo, pdoCount_eq, pdos_ofWire]
  simp [ofWire, pushPdo?, wireManager, wirePdo]

theorem result_addEntry_ofWire (e : Entry) (device : String) (failed : Bool)
    (ms : List Manager) (m : Manager) (ps : List Pdo) (p : Pdo) :
    (addEntry e).result (ofWire device failed (ms ++ [{ m with pdos := ps ++ [p] }])) =
      if entryLimit ≤ ((ms ++ [{ m with pdos := ps ++ [p] }]).flatMap Manager.entries).length then
        (.error (.entriesFull device entryLimit),
          ofWire device true (ms ++ [{ m with pdos := ps ++ [p] }]))
      else
        (.ok (), ofWire device failed
          (ms ++ [{ m with pdos := ps ++ [{ p with entries := p.entries ++ [e] }] }])) := by
  rw [result_addEntry, entryCount_eq, entries_ofWire]
  simp [ofWire, pushEntry?, wireManager, wirePdo]

end Builder

end ServoBus.Sync
