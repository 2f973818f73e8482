import ServoBus.Proofs.Device.Made
import ServoBus.Proofs.Slave

/-!
# Histories of a slave

A slave is activated again and again, successfully or not, it takes part in cycles, the host
does what it likes to the pins, and the master goes its own ways in between. Whatever happens,
some of the slave stays: its root, which is all that an activation starts from.
-/

namespace ServoBus

namespace Slave

variable {μ : Type}

/-- What can happen to a slave. -/
inductive Event (μ : Type) where
  | activate
  | updateState
  | read
  | write
  /-- The host changes the pins. -/
  | change (f : PinTable → PinTable)
  /-- The master becomes another one. -/
  | alter (m : μ)

/-- The slave without anything that activations, cycles and the host made of it. -/
def root (s : Slave) : Slave := { s.cleared with state := .unknown }

variable [Master μ]

/-- What an event makes of a slave and its master. -/
def handle : Slave × μ → Event μ → Slave × μ
  | (s, m), .activate => (s.activate m).value.2
  | (s, m), .updateState => s.updateState m
  | (s, m), .read => (s.read (Master.image m), m)
  | (s, m), .write => (s.write m).value
  | (s, m), .change f => ({ s with pins := f s.pins }, m)
  | (s, _), .alter m => (s, m)

/-- The slave and the master behind events. -/
def after (s : Slave) (m : μ) (events : List (Event μ)) : Slave × μ := events.foldl handle (s, m)

/-- A setup that succeeded leaves the name of the device and the number of entries that it has
room for. -/
theorem cleared_of_result_setUp {s : Slave} {m : μ} {rig : Rig} {w : Workspace μ}
    (h : s.setUp.result ⟨m, s.syncs.cleared, s.regs.cleared, {}⟩ = (.ok rig, w)) :
    w.syncs.cleared = s.syncs.cleared ∧ w.regs.cleared = s.regs.cleared := by
  obtain ⟨w₁, managers, w₂, hset, hconf, hloc⟩ := exists_of_result_setUp h
  obtain ⟨o, hsyncs, hregs⟩ :=
    DeviceType.exists_mapped_of_result_setUp s.syncs.device rfl hset
  have hmade := (Setup.keeps_onMaster _).of_result hconf
  simp only [Action.Same, Setup.made, Prod.mk.injEq] at hmade
  obtain ⟨⟨r, m'⟩, hlocate, rfl⟩ := Action.result_zoom_eq_ok_iff.1 hloc
  have hcleared := Registrations.cleared_locate w₂.regs w₂.master
  rw [hlocate] at hcleared
  constructor
  · show w₂.syncs.cleared = _
    rw [hmade.1, hsyncs]
    rfl
  · show r.cleared = _
    rw [show r.cleared = w₂.regs.cleared from hcleared, hmade.2.1, hregs]
    rfl

theorem root_activate (s : Slave) (m : μ) : (s.activate m).value.2.1.root = s.root := by
  rw [value_activate]
  split
  · next rig w hset =>
    obtain ⟨hsyncs, hregs⟩ := cleared_of_result_setUp hset
    simp only [root, cleared, hsyncs, hregs]
  · rfl

theorem root_handle (x : Slave × μ) (e : Event μ) : (handle x e).1.root = x.1.root := by
  obtain ⟨s, m⟩ := x
  cases e with
  | activate => exact s.root_activate m
  | updateState =>
    rw [handle, updateState]
    split <;> rfl
  | read =>
    rw [handle, read]
    split <;> rfl
  | write =>
    rw [handle, write]
    split <;> rfl
  | change f => rfl
  | alter m' => rfl

theorem root_after (s : Slave) (m : μ) (events : List (Event μ)) :
    (s.after m events).1.root = s.root := by
  have hfold (x : Slave × μ) : (events.foldl handle x).1.root = x.1.root := by
    induction events generalizing x with
    | nil => rfl
    | cons e events ih => rw [List.foldl_cons, ih, root_handle]
  exact hfold (s, m)

end Slave

end ServoBus
