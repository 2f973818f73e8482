import ServoBus.Proofs.Action.Failure
import ServoBus.Proofs.Setup.Answers

/-!
# Faults that come from the master

The fault of a single call is an answer of the master. For a whole setup this is seen by a detour.
A master is masked against a fault if it gives another one in its place. A setup that does not get
the fault as an answer cannot tell the masked master from the one behind it. So if it never fails
with this fault on the masked one, the fault of a setup is one that the master has answered.
-/

namespace ServoBus

/-- The fault of a call about a slave is an answer of the master. -/
theorem Setup.failsWith_onMaster {μ α : Type} [Master μ] {slave : Position} (call : MasterCall)
    (answer : Except Fault α → Answer) (hcall : call.slave? = some slave)
    {step : μ → Except Fault α × μ} (hstep : ∀ m, call.perform m = Prod.map answer id (step m))
    (hanswer : ∀ e, (answer (.error e)).fault? = some e) :
    Action.FailsWith (Master.Gives μ slave) (Setup.onMaster step) := by
  refine Action.FailsWith.zoom ?_ _ _
  intro m e m' h
  have hfault : step m = (.error e, m') := h
  refine ⟨call, m, hcall, ?_⟩
  rw [hstep, hfault]
  exact hanswer e

/-- The fault that a masked master gives. -/
def mask : Fault := .master ""

/-- A result with another fault in the place of one. -/
def hide {α : Type} (e : Fault) (r : Except Fault α) : Except Fault α :=
  r.mapError fun e' => if e' = e then mask else e'

/-- An answer with another fault in the place of one. -/
def Answer.hide (e : Fault) : Answer → Answer
  | done r => .done (ServoBus.hide e r)
  | content r => .content (ServoBus.hide e r)
  | place r => .place (ServoBus.hide e r)
  | request r => .request (ServoBus.hide e r)
  | progress s => .progress s
  | state r => .state (ServoBus.hide e r)
  | nothing => .nothing

/-- A master that is masked against a fault. -/
structure Masked (μ : Type) (e : Fault) where
  master : μ

namespace Masked

variable {μ : Type} [Master μ] {e : Fault}

instance : Master (Masked μ e) where
  upload slave a length x := Prod.map (hide e) mk (Master.upload slave a length x.master)
  download slave a content x := Prod.map (hide e) mk (Master.download slave a content x.master)
  addConfig slave a content x := Prod.map (hide e) mk (Master.addConfig slave a content x.master)
  configureSlave slave identity managers x :=
    Prod.map (hide e) mk (Master.configureSlave slave identity managers x.master)
  locateEntry slave a x := Prod.map (hide e) mk (Master.locateEntry slave a x.master)
  createRequest slave a length x :=
    Prod.map (hide e) mk (Master.createRequest slave a length x.master)
  requestState r x := Prod.map id mk (Master.requestState r x.master)
  startWrite r content x := ⟨Master.startWrite r content x.master⟩
  slaveState slave x := Prod.map (hide e) mk (Master.slaveState slave x.master)
  image x := Master.image x.master
  setImage image x := ⟨Master.setImage image x.master⟩

theorem perform_masked (call : MasterCall) (x : Masked μ e) :
    call.perform x = ((call.perform x.master).1.hide e, ⟨(call.perform x.master).2⟩) := by
  cases call <;> rfl

theorem answers_masked (calls : List MasterCall) (x : Masked μ e) :
    Master.answers calls x = (Master.answers calls x.master).map (·.hide e) := by
  induction calls generalizing x with
  | nil => rfl
  | cons call calls ih =>
    rw [Master.answers, Master.answers, ih, perform_masked]
    rfl

end Masked

namespace Answer

variable {e : Fault}

theorem fault?_hide (e : Fault) (a : Answer) :
    (a.hide e).fault? = a.fault?.map fun e' => if e' = e then mask else e' := by
  cases a with
  | progress s => rfl
  | nothing => rfl
  | _ r => cases r <;> rfl

theorem fault?_hide_ne (he : e ≠ mask) (a : Answer) : (a.hide e).fault? ≠ some e := by
  rw [fault?_hide]
  intro h
  obtain ⟨e', -, h⟩ := Option.map_eq_some_iff.1 h
  split at h
  · exact he h.symm
  · contradiction

theorem hide_of_fault?_ne {a : Answer} (h : a.fault? ≠ some e) : a.hide e = a := by
  have hresult {α : Type} {r : Except Fault α} (hr : r ≠ .error e) : ServoBus.hide e r = r := by
    cases r with
    | ok a => rfl
    | error e' => exact congrArg Except.error (if_neg fun he => hr (by rw [he]))
  cases a with
  | progress s => rfl
  | nothing => rfl
  | _ r =>
    rw [Answer.hide, hresult]
    rintro rfl
    exact h rfl

end Answer

/-- A masked master does not give the fault that it is masked against. -/
theorem Masked.not_gives {μ : Type} [Master μ] {e : Fault} (he : e ≠ mask) {slave : Position} :
    ¬ Master.Gives (Masked μ e) slave e := by
  rintro ⟨call, x, -, h⟩
  rw [perform_masked] at h
  exact Answer.fault?_hide_ne he _ h

/-- If a setup fails with a fault that it does not come to on a masked master, the fault is
among the answers to its calls. -/
theorem Setup.exists_answer_of_result {μ α γ : Type} [Master μ] {P : MasterCall → Prop}
    {view : α → γ} {e : Fault} {x : Setup (Traced μ) α} {y : Setup (Masked μ e) α}
    (h : Agrees P .sharp view x y) {w w' : Workspace (Traced μ)}
    (hy : ∀ v', y.result ⟨⟨w.master.master⟩, w.syncs, w.regs, w.pins⟩ ≠ (.error e, v'))
    (hx : x.result w = (.error e, w')) :
    ∃ calls, w'.master = Master.behind calls w.master ∧
      ∃ a ∈ Master.answers calls w.master, a.fault? = some e := by
  obtain ⟨calls, -, hcalls⟩ := h.talks w
  refine ⟨calls, ?_, ?_⟩
  · rw [← hcalls, hx]
  refine Classical.byContradiction fun hnone => ?_
  let v : Workspace (Masked μ e) := ⟨⟨w.master.master⟩, w.syncs, w.regs, w.pins⟩
  have halike : Master.Alike .sharp calls w.master v.master := by
    rw [Master.alike_sharp_iff, Masked.answers_masked, Master.answers_traced]
    refine (List.map_congr_left fun a ha => ?_).trans (List.map_id _)
    rw [← Master.answers_traced] at ha
    exact Answer.hide_of_fault?_ne fun hfault => hnone ⟨a, ha, hfault⟩
  obtain ⟨hresult, -, -⟩ := h.follows (v := v) rfl hcalls halike
  rcases hr : y.result v with ⟨e' | b, v'⟩
  · rw [hx, hr] at hresult
    cases hresult
    exact hy v' hr
  · rw [hx, hr] at hresult
    cases hresult

end ServoBus
