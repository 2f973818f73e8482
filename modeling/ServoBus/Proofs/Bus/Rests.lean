import ServoBus.Proofs.Bus.Lasting

/-!
# Services that rest

A service rests when no request of it is on its way and its object holds what is in its pin. It
goes on resting through cycles of all kinds, whatever the master does, because a cycle neither
wakes its writer nor touches a pin that the host sets. So it rests until the host changes the
pin or the bus is configured again.
-/

namespace ServoBus

/-- A service whose pin, which the host sets, has a value that the object is known to hold. -/
structure Slave.Rests (s : Slave) (k j : Nat) (x : Axis.Served) (name : String) (v : Pin.Value) :
    Prop where
  service : s.service? k j = some x
  pin : s.pins.pin? x.pin = some ⟨name, .input, v⟩
  last : x.writer.last = v.raw
  phase : x.writer.phase = .idle

namespace Slave.Rests

variable {s : Slave} {k j : Nat} {x : Axis.Served} {name : String} {v : Pin.Value}

theorem settled (h : s.Rests k j x name v) : x.Settled s.pins := by
  constructor
  · rw [h.phase]
    nofun
  · rw [h.last, PinTable.raw_of_pin? h.pin]

theorem value?_eq (h : s.Rests k j x name v) (hn : s.pins.names.Nodup) :
    s.pins.value? name = some v :=
  PinTable.value?_of_pin? hn h.pin

/-- It does not matter what else of the slave changes. -/
theorem of_eq {s' : Slave} (h : s.Rests k j x name v) (hrig : s'.rig? = s.rig?)
    (hpin : s'.pins.pin? x.pin = some ⟨name, .input, v⟩) : s'.Rests k j x name v where
  service := by
    rw [service?_congr hrig]
    exact h.service
  pin := hpin
  last := h.last
  phase := h.phase

variable {μ : Type} [Master μ]

theorem write (h : s.Rests k j x name v) (m : μ) : (s.write m).value.1.Rests k j x name v where
  service := service?_write h.service h.settled m
  pin := by
    rw [pins_write]
    exact h.pin
  last := h.last
  phase := h.phase

theorem lasting (k j : Nat) (x : Axis.Served) (name : String) (v : Pin.Value) :
    Lasting μ name fun s => s.Rests k j x name v where
  active _ h := exists_rig_of_service? h.service
  pins _ _ h hn hshapes hvalue := h.of_eq rfl (PinTable.pin?_of_value?_eq hn hshapes h.pin hvalue)
  read _ _ h hs state image := h.of_eq (rig?_read _ _) (hs.pin?_of_read h.pin nofun state image)
  write _ m h := h.write m

end Slave.Rests

namespace Bus.Session

variable {μ : Type} [Master μ] {registry : Registry} {n k j : Nat} {s : Slave}
  {x : Axis.Served} {name : String} {v : Pin.Value}

/-- Until the bus is configured again a service rests as long as the host leaves its pin alone. -/
theorem rests_run {start : String} {m : μ} {before after : List (Operation μ)}
    (hafter : .configure ∉ after)
    (hkeeps : ((Session.start start m).run registry before).HostKeeps registry n name after)
    (hs : ((Session.start start m).run registry before).bus.slaves[n]? = some s)
    (h : s.Rests k j x name v) :
    ∃ s', ((Session.start start m).run registry (before ++ after)).bus.slaves[n]? = some s' ∧
      s'.Rests k j x name v :=
  lasting_run (Slave.Rests.lasting k j x name v) hafter hkeeps hs h

end Bus.Session

end ServoBus
