import ServoBus.Request.Writer

/-!
# One cycle of a writer

A master can be watched: `Watched` passes everything on to a master and keeps the calls about
requests. The writer cannot tell the difference. What it does in one cycle is one of six things,
each with its own calls, which is the relation `Writer.Turn`.
-/

namespace ServoBus

/-- What is asked of a master about a request, with its answer. -/
inductive RequestCall where
  | poll (r : RequestRef) (answer : RequestState)
  | issue (r : RequestRef) (content : Bytes)
deriving DecidableEq, Repr

/-- A master with the calls about requests that it got, the latest first. -/
structure Watched (μ : Type) where
  master : μ
  calls : List RequestCall := []

namespace Watched

variable {μ α : Type} [Master μ]

/-- Hands a request on to the master. -/
def pass (step : μ → α × μ) (w : Watched μ) : α × Watched μ :=
  ((step w.master).1, { w with master := (step w.master).2 })

instance : Master (Watched μ) where
  upload slave a length := pass (Master.upload slave a length)
  download slave a content := pass (Master.download slave a content)
  addConfig slave a content := pass (Master.addConfig slave a content)
  configureSlave slave identity managers := pass (Master.configureSlave slave identity managers)
  locateEntry slave a := pass (Master.locateEntry slave a)
  createRequest slave a length := pass (Master.createRequest slave a length)
  requestState r w :=
    let (answer, m) := Master.requestState r w.master
    (answer, ⟨m, .poll r answer :: w.calls⟩)
  startWrite r content w := ⟨Master.startWrite r content w.master, .issue r content :: w.calls⟩
  slaveState slave := pass (Master.slaveState slave)
  image w := Master.image w.master
  setImage image w := { w with master := Master.setImage image w.master }

end Watched

namespace Writer

/-- What a writer can do in a cycle in which it is given a value: the calls that it makes, the
latest first, and what becomes of it. -/
inductive Turn (w : Writer) (v : Int) : List RequestCall → Writer → Prop where
  | kept (hphase : w.phase ≠ .busy) (hv : w.last = v) : Turn w v [] w
  | sent (hphase : w.phase ≠ .busy) (hv : w.last ≠ v) :
    Turn w v [.issue w.request (payload w.width v)] { w with pending := v, phase := .busy }
  | waiting (hphase : w.phase = .busy) : Turn w v [.poll w.request .busy] w
  | settled (hphase : w.phase = .busy) (hv : w.pending = v) :
    Turn w v [.poll w.request .success] { w with last := w.pending, phase := .done }
  | renewed (hphase : w.phase = .busy) (hv : w.pending ≠ v) :
    Turn w v [.issue w.request (payload w.width v), .poll w.request .success]
      { w with last := w.pending, pending := v, phase := .busy }
  | failed (hphase : w.phase = .busy) (answer : RequestState)
    (ha : answer = .error ∨ answer = .unused) :
    Turn w v [.poll w.request answer] { w with phase := .idle }

variable {μ : Type} [Master μ]

theorem send_watched (w : Writer) (v : Int) (t : Watched μ) :
    (w.send v t).1 = (w.send v t.master).1 ∧
      (w.send v t).2.master = (w.send v t.master).2 := by
  unfold send
  by_cases hv : w.last = v
  · rw [if_pos hv, if_pos hv]
    exact ⟨rfl, rfl⟩
  · rw [if_neg hv, if_neg hv]
    exact ⟨rfl, rfl⟩

/-- To watch a master changes neither what the writer does nor what becomes of the master. -/
theorem write_watched (w : Writer) (v : Int) (t : Watched μ) :
    (w.write v t).value.1 = (w.write v t.master).value.1 ∧
      (w.write v t).value.2.master = (w.write v t.master).value.2 := by
  unfold write
  by_cases hphase : w.phase = .busy
  · rw [if_pos hphase, if_pos hphase]
    simp only [Master.requestState]
    rcases Master.requestState w.request t.master with ⟨answer, m⟩
    cases answer with
    | busy => exact ⟨rfl, rfl⟩
    | success => exact send_watched _ v _
    | error => exact ⟨rfl, rfl⟩
    | unused => exact ⟨rfl, rfl⟩
  · rw [if_neg hphase, if_neg hphase]
    exact send_watched w v t

theorem turn_send {w : Writer} (hphase : w.phase ≠ .busy) (v : Int) (m : μ) :
    w.Turn v (w.send v (⟨m, []⟩ : Watched μ)).2.calls (w.send v (⟨m, []⟩ : Watched μ)).1 := by
  unfold send
  by_cases hv : w.last = v
  · rw [if_pos hv]
    exact .kept hphase hv
  · rw [if_neg hv]
    exact .sent hphase hv

/-- In every cycle a writer takes one of its turns. -/
theorem turn_write (w : Writer) (v : Int) (m : μ) :
    w.Turn v (w.write v (⟨m, []⟩ : Watched μ)).value.2.calls
      (w.write v (⟨m, []⟩ : Watched μ)).value.1 := by
  unfold write
  by_cases hphase : w.phase = .busy
  · rw [if_pos hphase]
    simp only [Master.requestState]
    rcases Master.requestState w.request m with ⟨answer, m'⟩
    cases answer with
    | busy => exact .waiting hphase
    | success =>
      simp only [Logged.value_pure, send]
      by_cases hv : w.pending = v
      · rw [if_pos hv]
        exact .settled hphase hv
      · rw [if_neg hv]
        exact .renewed hphase hv
    | error => exact .failed hphase .error (.inl rfl)
    | unused => exact .failed hphase .unused (.inr rfl)
  · rw [if_neg hphase]
    exact turn_send hphase v m

end Writer

end ServoBus
