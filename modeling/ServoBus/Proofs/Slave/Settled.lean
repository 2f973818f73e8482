import ServoBus.Proofs.Slave.Drives

/-!
# Services that have nothing to do

A service is settled if no request of it is on its way and its object holds what is in its pin.
In the output half of a cycle such a service does nothing, with whatever master, so it stays as
it is and stays settled until its pin changes.
-/

namespace ServoBus

namespace Axis

/-- No request is on its way, and the object holds what is in the pin. -/
def Served.Settled (pins : PinTable) (x : Served) : Prop :=
  x.writer.phase ≠ .busy ∧ x.writer.last = pins.raw x.pin

variable {μ : Type} [Master μ]

/-- With nothing to do the writer makes no call. -/
theorem Served.Settled.write {pins : PinTable} {x : Served} (h : x.Settled pins) (m : μ) :
    x.writer.write (pins.raw x.pin) m = pure (x.writer, m) := by
  rw [Writer.write, if_neg h.1, ← h.2, Writer.send_last]

theorem Channel.getElem?_serve {pins : PinTable} {xs : List Served} {j : Nat} {x : Served}
    (hx : xs[j]? = some x) (h : x.Settled pins) (m : μ) :
    (serve pins xs m).value.1[j]? = some x := by
  induction xs generalizing m j with
  | nil => cases hx
  | cons q xs ih =>
    simp only [serve, Logged.value_bind, Logged.value_pure]
    cases j with
    | zero =>
      cases hx
      rw [h.write]
      rfl
    | succ j => exact ih hx _

end Axis

variable {μ : Type} [Master μ]

theorem Rig.getElem?_writeChannels (regs : Registrations) (pins : PinTable)
    {cs : List Axis.Channel} {k : Nat} {c : Axis.Channel} (hc : cs[k]? = some c) (m : μ) :
    ∃ m' : μ, (writeChannels regs pins cs m).value.1[k]? = some (c.write regs pins m').value.1 := by
  induction cs generalizing m k with
  | nil => cases hc
  | cons q cs ih =>
    simp only [writeChannels, Logged.value_bind, Logged.value_pure]
    cases k with
    | zero =>
      cases hc
      exact ⟨m, rfl⟩
    | succ k => exact ih hc _

namespace Slave

/-- The service with a number of the channel with a number. -/
def service? (s : Slave) (k j : Nat) : Option Axis.Served :=
  s.channels[k]?.bind (·.services[j]?)

variable {s : Slave} {k j : Nat} {x : Axis.Served}

theorem service?_eq_some_iff :
    s.service? k j = some x ↔
      ∃ c, s.channels[k]? = some c ∧ c.services[j]? = some x :=
  Option.bind_eq_some_iff

/-- The services of a slave are those of its rig. -/
theorem service?_congr {s' : Slave} (h : s'.rig? = s.rig?) : s'.service? = s.service? := by
  funext k j
  rw [service?, service?, channels, channels, h]

theorem exists_rig_of_service? (h : s.service? k j = some x) : ∃ rig, s.rig? = some rig := by
  obtain ⟨c, hc, -⟩ := service?_eq_some_iff.1 h
  obtain ⟨rig, hrig, -⟩ := mem_channels.1 (List.mem_of_getElem? hc)
  exact ⟨rig, hrig⟩

/-- A settled service does not notice the output half of a cycle. -/
theorem service?_write (hx : s.service? k j = some x) (h : x.Settled s.pins) (m : μ) :
    (s.write m).value.1.service? k j = some x := by
  obtain ⟨c, hc, hj⟩ := service?_eq_some_iff.1 hx
  rw [write, cyclic?]
  cases s.state.operational with
  | false => exact hx
  | true =>
    obtain ⟨rig, hrig⟩ := exists_rig_of_service? hx
    rw [channels, hrig] at hc
    rw [if_pos rfl, hrig]
    refine service?_eq_some_iff.2 ?_
    obtain ⟨m', hget⟩ := Rig.getElem?_writeChannels s.regs s.pins hc m
    exact ⟨_, hget, Axis.Channel.getElem?_serve hj h _⟩

end Slave

end ServoBus
