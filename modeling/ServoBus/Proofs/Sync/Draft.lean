import Mathlib.Data.List.DropRight
import Mathlib.Data.List.ModifyLast
import ServoBus.Sync.Builder

/-!
# Drafts

A draft is a tree of sync managers in the order of the wire, and a call adds one node
to it at the end of its level or starts it anew. A call for which there is no place is
rejected and leaves the tree as it is.

What calls made is found by carrying out again those that succeeded since the draft was
started last (`replay`); no call that was rejected leaves a trace in the tree.
-/

namespace ServoBus.Sync

inductive Call where
  | begin
  | manager (direction : Direction) (watchdog : Watchdog)
  | pdo (index : UInt16)
  | entry (e : Entry)
deriving DecidableEq, Repr

structure Draft where
  device : String
  failed : Bool := false
  managers : List Manager := []
deriving DecidableEq, Repr

namespace Call

/-- The tree with a further node. A PDO goes into the latest sync manager, an entry into
the latest PDO. -/
def place (ms : List Manager) : Call → List Manager
  | begin => []
  | manager direction watchdog => ms ++ [⟨ms.length, direction, watchdog, []⟩]
  | pdo index => ms.modifyLast fun m => { m with pdos := m.pdos ++ [⟨index, []⟩] }
  | entry e =>
    ms.modifyLast fun m =>
      { m with pdos := m.pdos.modifyLast fun p => { p with entries := p.entries ++ [e] } }

/-- There is no place for a node: its level is full, or what it would belong to is
missing. -/
def Blocked (ms : List Manager) : Call → Prop
  | begin => False
  | manager _ _ => managerLimit ≤ ms.length
  | pdo _ => ms = [] ∨ pdoLimit ≤ (ms.flatMap (·.pdos)).length
  | entry _ =>
    (∀ m ∈ ms.getLast?, m.pdos = []) ∨ entryLimit ≤ (ms.flatMap Manager.entries).length

/-- Why a call is rejected. -/
def fault? (d : Draft) : Call → Option Fault
  | begin => none
  | manager _ _ =>
    if managerLimit ≤ d.managers.length then some (.syncsFull d.device managerLimit) else none
  | pdo _ =>
    if d.managers = [] then some (.noCurrentSync d.device)
    else if pdoLimit ≤ (d.managers.flatMap (·.pdos)).length then
      some (.pdosFull d.device pdoLimit)
    else none
  | entry _ =>
    if ∀ m ∈ d.managers.getLast?, m.pdos = [] then some (.noCurrentPdo d.device)
    else if entryLimit ≤ (d.managers.flatMap Manager.entries).length then
      some (.entriesFull d.device entryLimit)
    else none

theorem fault?_isSome_iff (d : Draft) (c : Call) :
    (c.fault? d).isSome = true ↔ c.Blocked d.managers := by
  cases c with
  | begin => simp [fault?, Blocked]
  | manager direction watchdog =>
    simp only [fault?, Blocked]
    split <;> simp_all
  | pdo index =>
    simp only [fault?, Blocked]
    split
    · simp_all
    · split <;> simp_all
  | entry e =>
    simp only [fault?, Blocked]
    split
    · simp_all
    · split <;> simp_all

end Call

namespace Draft

def perform (c : Call) (d : Draft) : Except Fault Unit × Draft :=
  match c.fault? d with
  | some e => (.error e, { d with failed := true })
  | none => (.ok (), ⟨d.device, if c = .begin then false else d.failed, c.place d.managers⟩)

theorem perform_of_blocked {c : Call} {d : Draft} (h : c.Blocked d.managers) :
    ∃ e, perform c d = (.error e, { d with failed := true }) := by
  obtain ⟨e, he⟩ := Option.isSome_iff_exists.mp ((c.fault?_isSome_iff d).mpr h)
  exact ⟨e, by rw [perform, he]⟩

theorem perform_of_not_blocked {c : Call} {d : Draft} (h : ¬ c.Blocked d.managers) :
    perform c d =
      (.ok (), ⟨d.device, if c = .begin then false else d.failed, c.place d.managers⟩) := by
  have hn : c.fault? d = none := by
    rw [← Option.not_isSome_iff_eq_none, c.fault?_isSome_iff]
    exact h
  rw [perform, hn]

end Draft

/-! ## Records -/

/-- A call with its answer. -/
abbrev Answered := Call × Except Fault Unit

section Record

variable {σ τ : Type}

/-- Carries out calls one after the other, whatever they answer. -/
def record (perform : Call → σ → Except Fault Unit × σ) (calls : List Call) (s : σ) :
    List Answered × σ :=
  calls.foldl (fun (done, s) c => (done ++ [(c, (perform c s).1)], (perform c s).2)) ([], s)

theorem record_concat (perform : Call → σ → Except Fault Unit × σ) (calls : List Call)
    (c : Call) (s : σ) :
    record perform (calls ++ [c]) s =
      ((record perform calls s).1 ++ [(c, (perform c (record perform calls s).2).1)],
        (perform c (record perform calls s).2).2) := by
  simp [record]

/-- A state that is another one in a different form gives the same answers. -/
theorem record_map {perform : Call → σ → Except Fault Unit × σ}
    {perform' : Call → τ → Except Fault Unit × τ} {view : σ → τ}
    (h : ∀ c s, perform' c (view s) = ((perform c s).1, view (perform c s).2))
    (calls : List Call) (s : σ) :
    record perform' calls (view s) =
      ((record perform calls s).1, view (record perform calls s).2) := by
  induction calls using List.reverseRecOn with
  | nil => rfl
  | append_singleton calls c ih => rw [record_concat, record_concat, ih, h]

end Record

/-- The calls since the latest start. -/
def current (done : List Answered) : List Answered := done.rtakeWhile fun a => a.1 != .begin

/-- The tree that the calls since the latest start make, without those that were
rejected. -/
def replay (done : List Answered) : List Manager :=
  ((current done).filter (·.2.isOk)).foldl (fun ms a => a.1.place ms) []

theorem current_concat_begin (done : List Answered) (answer : Except Fault Unit) :
    current (done ++ [(.begin, answer)]) = [] :=
  List.rtakeWhile_concat_neg _ _ _ (by simp)

theorem current_concat {c : Call} (hc : c ≠ .begin) (done : List Answered)
    (answer : Except Fault Unit) :
    current (done ++ [(c, answer)]) = current done ++ [(c, answer)] :=
  List.rtakeWhile_concat_pos _ _ _ (by simpa using hc)

theorem replay_concat_error {c : Call} (hc : c ≠ .begin) (done : List Answered) (e : Fault) :
    replay (done ++ [(c, .error e)]) = replay done := by
  simp [replay, current_concat hc, Except.isOk, Except.toBool]

theorem replay_concat_ok (c : Call) (done : List Answered) :
    replay (done ++ [(c, .ok ())]) = c.place (replay done) := by
  by_cases hc : c = .begin
  · subst hc
    simp [replay, current_concat_begin, Call.place]
  · simp [replay, current_concat hc, Except.isOk, Except.toBool]

/-! ## What a record makes -/

/-- The sync managers are numbered by their place, and there are not too many. -/
structure Numbered (ms : List Manager) : Prop where
  numbers : ms.map (·.number) = List.range ms.length
  length_le : ms.length ≤ managerLimit

namespace Numbered

theorem nil : Numbered [] := ⟨rfl, Nat.zero_le _⟩

theorem modifyLast {ms : List Manager} (h : Numbered ms) {f : Manager → Manager}
    (hf : ∀ m, (f m).number = m.number) : Numbered (ms.modifyLast f) := by
  rcases List.eq_nil_or_concat' ms with rfl | ⟨init, m, rfl⟩
  · exact h
  · rw [List.modifyLast_concat]
    exact ⟨by simpa [hf] using h.numbers, by simpa using h.length_le⟩

theorem place {ms : List Manager} (h : Numbered ms) {c : Call} (hc : ¬ c.Blocked ms) :
    Numbered (c.place ms) := by
  cases c with
  | begin => exact nil
  | manager direction watchdog =>
    have hlt : ms.length + 1 ≤ managerLimit := Nat.lt_of_not_le hc
    exact ⟨by simp [Call.place, h.numbers, List.range_succ], by simpa [Call.place] using hlt⟩
  | pdo index => exact h.modifyLast fun _ => rfl
  | entry e => exact h.modifyLast fun _ => rfl

theorem number {ms : List Manager} (h : Numbered ms) {i : Nat} {m : Manager}
    (hm : ms[i]? = some m) : m.number = i := by
  obtain ⟨hlt, rfl⟩ := List.getElem?_eq_some_iff.mp hm
  have hi : (ms.map (·.number))[i]? = (List.range ms.length)[i]? := by rw [h.numbers]
  simpa [hlt] using hi

theorem not_isTerminator {ms : List Manager} (h : Numbered ms) {m : Manager} (hm : m ∈ ms) :
    m.isTerminator = false := by
  obtain ⟨i, hi, rfl⟩ := List.mem_iff_getElem.mp hm
  have hn : ms[i].number = i := h.number (List.getElem?_eq_getElem hi)
  have hle : ms.length ≤ 4 := h.length_le
  simp only [Manager.isTerminator, Manager.terminator, hn, beq_eq_false_iff_ne]
  omega

end Numbered

/-- A draft is what a record says. -/
structure Draft.Made (done : List Answered) (d : Draft) : Prop where
  managers : d.managers = replay done
  failed : d.failed = (current done).any (!·.2.isOk)
  numbered : Numbered d.managers

namespace Draft

theorem Made.concat {done : List Answered} {d : Draft} (h : Made done d) (c : Call) :
    Made (done ++ [(c, (perform c d).1)]) (perform c d).2 := by
  by_cases hb : c.Blocked d.managers
  · have hc : c ≠ .begin := fun hc => by simp [hc, Call.Blocked] at hb
    obtain ⟨e, he⟩ := perform_of_blocked hb
    rw [he]
    exact
      { managers := by rw [replay_concat_error hc, ← h.managers]
        failed := by simp [current_concat hc, Except.isOk, Except.toBool]
        numbered := h.numbered }
  · rw [perform_of_not_blocked hb]
    refine ⟨by rw [replay_concat_ok, h.managers], ?_, h.numbered.place hb⟩
    by_cases hc : c = .begin
    · simp [hc, current_concat_begin]
    · simp [current_concat hc, h.failed, hc, Except.isOk, Except.toBool]

theorem made_record (device : String) (calls : List Call) :
    Made (record perform calls ⟨device, false, []⟩).1
      (record perform calls ⟨device, false, []⟩).2 := by
  induction calls using List.reverseRecOn with
  | nil => exact ⟨rfl, rfl, Numbered.nil⟩
  | append_singleton calls c ih =>
    rw [record_concat]
    exact ih.concat c

end Draft

end ServoBus.Sync
