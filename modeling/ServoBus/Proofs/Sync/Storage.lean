import ServoBus.Proofs.Sync.Draft
import ServoBus.Proofs.Sync.Wire
import ServoBus.Sync.Storage

/-!
# Flat storage is an ordered tree

The flat storage and the builder are both a draft that is kept in another form:
`Storage.ofDraft` lays the nodes out level by level, `Builder.ofDraft` turns every level
round. Both forms commute with every call. So the children of a node stand one after
the other in the array of their level at all times, and what is cut out of the arrays is
the draft again.
-/

namespace ServoBus.Sync

/-! ## Laying out the children of nodes -/

section Layout

variable {ν η β : Type}

/-- The nodes of a level, whose children stand one after the other on the next level, the
first at a place. -/
def layOut (children : ν → List β) (node : ν → Span → η) (first : Nat) : List ν → List η
  | [] => []
  | x :: xs =>
    node x ⟨first, (children x).length⟩ ::
      layOut children node (first + (children x).length) xs

theorem layOut_append (children : ν → List β) (node : ν → Span → η) (first : Nat)
    (xs ys : List ν) :
    layOut children node first (xs ++ ys) =
      layOut children node first xs ++
        layOut children node (first + (xs.flatMap children).length) ys := by
  induction xs generalizing first with
  | nil => simp [layOut]
  | cons x xs ih => simp [layOut, ih, Nat.add_assoc]

@[simp] theorem length_layOut (children : ν → List β) (node : ν → Span → η) (first : Nat)
    (xs : List ν) : (layOut children node first xs).length = xs.length := by
  induction xs generalizing first with
  | nil => rfl
  | cons x xs ih => simp [layOut, ih]

theorem cut?_append (before xs after : List β) :
    (Span.mk before.length xs.length).cut? (before ++ (xs ++ after)) = some xs := by
  simp [Span.cut?]

theorem mapM_layOut_append {children : ν → List β} {node : ν → Span → η} {back : η → Option ν}
    {array : List β}
    (h : ∀ x s, s.cut? array = some (children x) → back (node x s) = some x)
    (before : List β) (xs : List ν) (ha : array = before ++ xs.flatMap children) :
    (layOut children node before.length xs).mapM back = some xs := by
  induction xs generalizing before with
  | nil => rfl
  | cons x xs ih =>
    rw [List.flatMap_cons] at ha
    have hx : back (node x ⟨before.length, (children x).length⟩) = some x :=
      h x _ (ha ▸ cut?_append ..)
    have hxs := ih (before ++ children x) (by rw [ha, List.append_assoc])
    rw [List.length_append] at hxs
    simp [layOut, hx, hxs]

/-- Every cut is within the array and gives back the children of its node. -/
theorem mapM_layOut {children : ν → List β} {node : ν → Span → η} {back : η → Option ν}
    {xs : List ν}
    (h : ∀ x s, s.cut? (xs.flatMap children) = some (children x) → back (node x s) = some x) :
    (layOut children node 0 xs).mapM back = some xs :=
  mapM_layOut_append h [] xs (List.nil_append _).symm

end Layout

/-! ## The storage of a draft -/

def managerNodes (ms : List Manager) : List ManagerNode :=
  layOut (·.pdos) (fun m => ManagerNode.mk m.number m.direction m.watchdog) 0 ms

def pdoNodes (ps : List Pdo) : List PdoNode :=
  layOut (·.entries) (fun p => PdoNode.mk p.index) 0 ps

theorem managerNodes_concat (ms : List Manager) (m : Manager) :
    managerNodes (ms ++ [m]) =
      managerNodes ms ++
        [⟨m.number, m.direction, m.watchdog, (ms.flatMap (·.pdos)).length, m.pdos.length⟩] := by
  simp [managerNodes, layOut_append, layOut]

theorem pdoNodes_concat (ps : List Pdo) (p : Pdo) :
    pdoNodes (ps ++ [p]) =
      pdoNodes ps ++ [⟨p.index, (ps.flatMap (·.entries)).length, p.entries.length⟩] := by
  simp [pdoNodes, layOut_append, layOut]

@[simp] theorem length_managerNodes (ms : List Manager) :
    (managerNodes ms).length = ms.length := length_layOut ..

@[simp] theorem length_pdoNodes (ps : List Pdo) : (pdoNodes ps).length = ps.length :=
  length_layOut ..

@[simp] theorem map_index_pdoNodes (ps : List Pdo) :
    (pdoNodes ps).map (·.index) = ps.map (·.index) := by
  unfold pdoNodes
  generalize 0 = first
  induction ps generalizing first with
  | nil => rfl
  | cons p ps ih => simp [layOut, ih]

namespace Storage

def ofDraft (d : Draft) : Storage :=
  { device := d.device
    managers := managerNodes d.managers
    pdos := pdoNodes (d.managers.flatMap (·.pdos))
    entries := (d.managers.flatMap (·.pdos)).flatMap (·.entries)
    failed := d.failed }

theorem result_addManager (direction : Direction) (watchdog : Watchdog) (s : Storage) :
    (addManager direction watchdog).result s =
      if managerLimit ≤ s.managers.length then
        (.error (.syncsFull s.device managerLimit), { s with failed := true })
      else
        (.ok (), { s with
          managers := s.managers ++
            [⟨s.managers.length, direction, watchdog, ⟨s.pdos.length, 0⟩⟩] }) := by
  rw [addManager, Action.result_bind]
  simp only [Action.result_get]
  split <;> rfl

theorem result_addPdo (index : UInt16) (s : Storage) :
    (addPdo index).result s =
      if s.managers.isEmpty then
        (.error (.noCurrentSync s.device), { s with failed := true })
      else if pdoLimit ≤ s.pdos.length then
        (.error (.pdosFull s.device pdoLimit), { s with failed := true })
      else
        (.ok (), { s with
          pdos := s.pdos ++ [⟨index, ⟨s.entries.length, 0⟩⟩]
          managers := s.managers.modifyLast fun m => { m with pdos := m.pdos.extend } }) := by
  rw [addPdo, Action.result_bind]
  simp only [Action.result_get]
  split
  · rfl
  · split <;> rfl

theorem result_addEntry (e : Entry) (s : Storage) :
    (addEntry e).result s =
      if !s.hasOpenPdo then
        (.error (.noCurrentPdo s.device), { s with failed := true })
      else if entryLimit ≤ s.entries.length then
        (.error (.entriesFull s.device entryLimit), { s with failed := true })
      else
        (.ok (), { s with
          entries := s.entries ++ [e]
          pdos := s.pdos.modifyLast fun p => { p with entries := p.entries.extend } }) := by
  rw [addEntry, Action.result_bind]
  simp only [Action.result_get]
  split
  · rfl
  · split <;> rfl

@[simp] theorem isEmpty_managers_ofDraft (d : Draft) :
    (ofDraft d).managers.isEmpty = true ↔ d.managers = [] := by
  rw [List.isEmpty_iff_length_eq_zero, ofDraft, length_managerNodes, List.length_eq_zero_iff]

@[simp] theorem hasOpenPdo_ofDraft (d : Draft) :
    (!(ofDraft d).hasOpenPdo) = true ↔ ∀ m ∈ d.managers.getLast?, m.pdos = [] := by
  rcases List.eq_nil_or_concat' d.managers with h | ⟨ms, m, h⟩
  · simp [hasOpenPdo, ofDraft, h, managerNodes, layOut]
  · simp [hasOpenPdo, ofDraft, h, managerNodes_concat]

theorem length_entries_ofDraft (d : Draft) :
    (ofDraft d).entries.length = (d.managers.flatMap Manager.entries).length := by
  rw [ofDraft, List.flatMap_assoc]
  rfl

/-- A node without children stands behind the others, and the next level is as it was. -/
theorem ofDraft_manager (d : Draft) (direction : Direction) (watchdog : Watchdog) :
    ofDraft { d with managers := Call.place d.managers (.manager direction watchdog) } =
      { ofDraft d with
        managers := (ofDraft d).managers ++
          [⟨(ofDraft d).managers.length, direction, watchdog, ⟨(ofDraft d).pdos.length, 0⟩⟩] } := by
  simp [ofDraft, Call.place, managerNodes_concat]

/-- A PDO is counted in the latest sync manager. -/
theorem ofDraft_pdo {d : Draft} (h : d.managers ≠ []) (index : UInt16) :
    ofDraft { d with managers := Call.place d.managers (.pdo index) } =
      { ofDraft d with
        pdos := (ofDraft d).pdos ++ [⟨index, ⟨(ofDraft d).entries.length, 0⟩⟩]
        managers := (ofDraft d).managers.modifyLast
          fun m => { m with pdos := m.pdos.extend } } := by
  obtain ⟨ms, m, hm⟩ := (List.eq_nil_or_concat' d.managers).resolve_left h
  simp [ofDraft, Call.place, hm, List.modifyLast_concat, managerNodes_concat,
    ← List.append_assoc, pdoNodes_concat, Span.extend]

/-- An entry is counted in the latest PDO. -/
theorem ofDraft_entry {d : Draft} (h : ¬ ∀ m ∈ d.managers.getLast?, m.pdos = []) (e : Entry) :
    ofDraft { d with managers := Call.place d.managers (.entry e) } =
      { ofDraft d with
        entries := (ofDraft d).entries ++ [e]
        pdos := (ofDraft d).pdos.modifyLast
          fun p => { p with entries := p.entries.extend } } := by
  rcases List.eq_nil_or_concat' d.managers with hm | ⟨ms, m, hm⟩
  · simp [hm] at h
  · obtain ⟨ps, p, hp⟩ := (List.eq_nil_or_concat' m.pdos).resolve_left (by simpa [hm] using h)
    simp [ofDraft, Call.place, hm, hp, List.modifyLast_concat, managerNodes_concat,
      ← List.append_assoc, pdoNodes_concat, Span.extend]

def perform (c : Call) (s : Storage) : Except Fault Unit × Storage :=
  match c with
  | .begin => begin.result s
  | .manager direction watchdog => (addManager direction watchdog).result s
  | .pdo index => (addPdo index).result s
  | .entry e => (addEntry e).result s

/-- A call on the storage is the call on the draft. -/
theorem perform_ofDraft (c : Call) (d : Draft) :
    perform c (ofDraft d) = ((Draft.perform c d).1, ofDraft (Draft.perform c d).2) := by
  cases c with
  | begin => rfl
  | manager direction watchdog =>
    rw [perform, result_addManager, Draft.perform, Call.fault?, ← ofDraft_manager]
    simp only [ofDraft, length_managerNodes]
    split <;> rfl
  | pdo index =>
    rw [perform, result_addPdo, Draft.perform, Call.fault?]
    simp only [isEmpty_managers_ofDraft]
    split
    · rfl
    · next h =>
      rw [← ofDraft_pdo h]
      simp only [ofDraft, length_pdoNodes]
      split <;> rfl
  | entry e =>
    rw [perform, result_addEntry, Draft.perform, Call.fault?]
    simp only [hasOpenPdo_ofDraft]
    split
    · rfl
    · next h =>
      rw [← ofDraft_entry h, length_entries_ofDraft]
      split <;> rfl

/-- What is cut out of the arrays are the PDOs with their entries. -/
theorem mapM_pdos_ofDraft (d : Draft) :
    ((ofDraft d).pdos.mapM fun p => (p.entries.cut? (ofDraft d).entries).map (Pdo.mk p.index)) =
      some (d.managers.flatMap (·.pdos)) :=
  mapM_layOut fun p _ h => congrArg (·.map (Pdo.mk p.index)) h

theorem finish_ofDraft (d : Draft) :
    ∃ x, (ofDraft d).finish = some x ∧
      x.outcome =
        if d.failed then .error (.incompleteSyncs d.device)
        else .ok ⟨(ofDraft d).managers, d.managers.flatMap (·.pdos)⟩ := by
  have hf : (ofDraft d).failed = d.failed := rfl
  rw [finish, hf]
  split
  · exact ⟨_, rfl, rfl⟩
  · rw [mapM_pdos_ofDraft]
    exact ⟨_, rfl, rfl⟩

/-- What is cut out of the list of PDOs are the sync managers with their PDOs. -/
theorem infos_ofDraft (d : Draft) :
    (Table.mk (ofDraft d).managers (d.managers.flatMap (·.pdos))).infos =
      some (d.managers ++ [.terminator]) := by
  have h : ((ofDraft d).managers.mapM fun m =>
      (m.pdos.cut? (d.managers.flatMap (·.pdos))).map
        (Manager.mk m.number m.direction m.watchdog)) = some d.managers :=
    mapM_layOut fun m _ h => congrArg (·.map (Manager.mk m.number m.direction m.watchdog)) h
  rw [Table.infos, h]
  rfl

theorem latestPdoIndex?_ofDraft (d : Draft) :
    (ofDraft d).latestPdoIndex? = (d.managers.flatMap (·.pdos)).getLast?.map (·.index) := by
  rcases List.eq_nil_or_concat' (d.managers.flatMap (·.pdos)) with h | ⟨ps, p, h⟩
  · simp [latestPdoIndex?, ofDraft, h, pdoNodes, layOut]
  · simp [latestPdoIndex?, ofDraft, h, pdoNodes_concat]

end Storage

namespace Builder

def ofDraft (d : Draft) : Builder := ofWire d.device d.failed d.managers

def perform (c : Call) (b : Builder) : Except Fault Unit × Builder :=
  match c with
  | .begin => (.ok (), b.cleared)
  | .manager direction watchdog => (addManager direction watchdog).result b
  | .pdo index => (addPdo index).result b
  | .entry e => (addEntry e).result b

/-- A call on the builder is the call on the draft. -/
theorem perform_ofDraft (c : Call) (d : Draft) :
    perform c (ofDraft d) = ((Draft.perform c d).1, ofDraft (Draft.perform c d).2) := by
  cases c with
  | begin => rfl
  | manager direction watchdog =>
    rw [perform, ofDraft, result_addManager_ofWire, Draft.perform, Call.fault?]
    split <;> rfl
  | pdo index =>
    rw [perform, Draft.perform, Call.fault?]
    rcases List.eq_nil_or_concat' d.managers with h | ⟨ms, m, h⟩
    · rw [ofDraft, h]
      rfl
    · rw [if_neg (by simp [h]), ofDraft, h, result_addPdo_ofWire]
      split
      · simp [ofDraft]
      · simp [ofDraft, Call.place, List.modifyLast_concat]
  | entry e =>
    rw [perform, Draft.perform, Call.fault?]
    rcases List.eq_nil_or_concat' d.managers with h | ⟨ms, m, h⟩
    · simp [ofDraft, h, result_addEntry, ofWire, pushEntry?]
    · obtain ⟨number, direction, watchdog, pdos⟩ := m
      rcases List.eq_nil_or_concat' pdos with rfl | ⟨ps, p, rfl⟩
      · simp [ofDraft, h, result_addEntry, ofWire, pushEntry?, wireManager]
      · rw [if_neg (by simp [h]), ofDraft, h]
        rw [result_addEntry_ofWire e d.device d.failed ms ⟨number, direction, watchdog, []⟩ ps p]
        split
        · simp [ofDraft]
        · simp [ofDraft, Call.place, List.modifyLast_concat]

theorem finish_ofDraft (d : Draft) :
    (ofDraft d).finish.outcome =
      if d.failed then .error (.incompleteSyncs d.device)
      else .ok (d.managers ++ [.terminator]) := by
  rw [outcome_finish, ofDraft, managers_ofWire, failed_ofWire]
  rfl

theorem latestPdoIndex?_ofDraft (d : Draft) :
    (ofDraft d).latestPdoIndex? = (d.managers.flatMap (·.pdos)).getLast?.map (·.index) := by
  rw [latestPdoIndex?, ofDraft, ofWire]
  induction d.managers using List.reverseRecOn with
  | nil => rfl
  | append_singleton ms m ih =>
    rcases List.eq_nil_or_concat' m.pdos with h | ⟨ps, p, h⟩
    · simpa [wireManager, h, List.findSome?_cons] using ih
    · simp [wireManager, wirePdo, h, List.findSome?_cons]

end Builder

/-- What can be seen of a storage is what can be seen of a builder. -/
structure Mirrors (s : Storage) (b : Builder) : Prop where
  failed : s.failed = b.failed
  managerCount : s.managers.length = b.managerCount
  pdoCount : s.pdos.length = b.pdoCount
  entries : s.entries = b.entries
  pdoIndices : s.pdos.map (·.index) = b.pdoIndices
  latestPdoIndex : s.latestPdoIndex? = b.latestPdoIndex?
  openEntryCount : s.openEntryCount = b.openEntryCount
  /-- A table has all that the builder hands over, and its cuts are within its arrays. -/
  finish : ∃ x, s.finish = some x ∧
    x.outcome.map Table.infos = b.finish.outcome.map some

theorem mirrors_ofDraft (d : Draft) : Mirrors (.ofDraft d) (.ofDraft d) where
  failed := rfl
  managerCount := by simp [Storage.ofDraft, Builder.managerCount, Builder.ofDraft, Builder.ofWire]
  pdoCount := by
    rw [Builder.pdoCount_eq, Builder.ofDraft, Builder.pdos_ofWire, Storage.ofDraft,
      length_pdoNodes]
  entries := by
    rw [Builder.ofDraft, Builder.entries_ofWire, Storage.ofDraft, List.flatMap_assoc]
    rfl
  pdoIndices := by
    rw [Builder.pdoIndices, Builder.ofDraft, Builder.pdos_ofWire, Storage.ofDraft,
      map_index_pdoNodes]
  latestPdoIndex := by
    rw [Storage.latestPdoIndex?_ofDraft, Builder.latestPdoIndex?_ofDraft]
  openEntryCount := by
    rcases List.eq_nil_or_concat' d.managers with h | ⟨ms, m, h⟩
    · simp [Storage.openEntryCount, Storage.hasOpenPdo, Storage.ofDraft, Builder.openEntryCount,
        Builder.ofDraft, Builder.ofWire, h, managerNodes, layOut]
    · rcases List.eq_nil_or_concat' m.pdos with hp | ⟨ps, p, hp⟩
      · simp [Storage.openEntryCount, Storage.hasOpenPdo, Storage.ofDraft,
          Builder.openEntryCount, Builder.ofDraft, Builder.ofWire, h, hp, managerNodes_concat,
          Builder.wireManager]
      · simp [Storage.openEntryCount, Storage.hasOpenPdo, Storage.ofDraft,
          Builder.openEntryCount, Builder.ofDraft, Builder.ofWire, h, hp, managerNodes_concat,
          Builder.wireManager, Builder.wirePdo, pdoNodes_concat, ← List.append_assoc]
  finish := by
    obtain ⟨x, hx, ho⟩ := Storage.finish_ofDraft d
    refine ⟨x, hx, ?_⟩
    rw [ho, Builder.finish_ofDraft]
    split
    · rfl
    · simp [Except.map, Storage.infos_ofDraft]

/-- A storage is the tree that calls made. -/
structure Storage.Refines (done : List Answered) (s : Storage) : Prop where
  /-- A call is rejected exactly if there is no place for its node. -/
  rejects : ∀ c, (s.perform c).1.isOk = false ↔ c.Blocked (replay done)
  /-- A call that is rejected changes nothing else. -/
  keeps : ∀ c, (s.perform c).1.isOk = false → (s.perform c).2 = { s with failed := true }
  /-- The children of every node stand one after the other. -/
  stores : s = ofDraft ⟨s.device, s.failed, replay done⟩
  finishes : ∃ x, s.finish = some x ∧ (x.outcome.isOk ↔ ∀ a ∈ current done, a.2.isOk)
  infos : ∀ x t, s.finish = some x → x.outcome = .ok t →
    t.infos = some (replay done ++ [.terminator])
  numbers : ∀ (i : Nat) (m : Manager), (replay done)[i]? = some m → m.number = i
  ends : ∀ m ∈ replay done, m.isTerminator = false

theorem Storage.refines_of_made {done : List Answered} {d : Draft} (h : d.Made done) :
    Refines done (ofDraft d) where
  rejects c := by
    rw [perform_ofDraft, ← h.managers]
    by_cases hb : c.Blocked d.managers
    · obtain ⟨e, he⟩ := Draft.perform_of_blocked hb
      simp [he, hb, Except.isOk, Except.toBool]
    · simp [Draft.perform_of_not_blocked hb, hb, Except.isOk, Except.toBool]
  keeps c hc := by
    rw [perform_ofDraft] at hc ⊢
    have hb : c.Blocked d.managers := by
      by_contra hb
      simp [Draft.perform_of_not_blocked hb, Except.isOk, Except.toBool] at hc
    obtain ⟨e, he⟩ := Draft.perform_of_blocked hb
    rw [he]
    rfl
  stores := by
    rw [← h.managers]
    rfl
  finishes := by
    obtain ⟨x, hx, ho⟩ := finish_ofDraft d
    refine ⟨x, hx, ?_⟩
    by_cases hall : ∀ a ∈ current done, a.2.isOk
    · have hf : d.failed = false := by rw [h.failed, List.any_eq_false]; simpa using hall
      rw [ho, hf]
      exact iff_of_true rfl hall
    · have hf : d.failed = true := by rw [h.failed, List.any_eq_true]; simpa using hall
      rw [ho, hf]
      exact iff_of_false (by simp [Except.isOk, Except.toBool]) hall
  infos x t hx ht := by
    obtain ⟨y, hy, ho⟩ := finish_ofDraft d
    obtain rfl : y = x := Option.some.inj (hy.symm.trans hx)
    rw [ho] at ht
    split at ht
    · simp at ht
    · obtain rfl := Except.ok.inj ht
      rw [infos_ofDraft, h.managers]
  numbers i m hm := h.numbered.number (h.managers ▸ hm)
  ends m hm := h.numbered.not_isTerminator (h.managers ▸ hm)

/-- After any calls on a new storage it is the tree that those make which succeeded since
the latest start, and a builder answers the same calls in the same way. -/
theorem Storage.refines_record (device : String) (calls : List Call) :
    let storage := record perform calls ⟨device, [], [], [], false⟩
    let builder := record Builder.perform calls ⟨device, [], false⟩
    Refines storage.1 storage.2 ∧ builder.1 = storage.1 ∧ Mirrors storage.2 builder.2 := by
  intro storage builder
  have hs : storage = _ := record_map perform_ofDraft calls ⟨device, false, []⟩
  have hb : builder = _ := record_map Builder.perform_ofDraft calls ⟨device, false, []⟩
  rw [hs, hb]
  exact ⟨refines_of_made (Draft.made_record device calls), rfl, mirrors_ofDraft _⟩

end ServoBus.Sync
