import ServoBus.Proofs.Bus.Gate
import ServoBus.Proofs.Bus.Handles
import ServoBus.Proofs.Slave.Read

/-!
# The input half of a cycle

In every state of a run, whether the latest configuration succeeded or not, the input half of a
cycle shows in the pins of the slaves that it finds operational what the process image holds. As
long as the master leaves the image alone when it is asked for states, all of them see the same
image, which is not changed, and no request is polled or written.
-/

namespace ServoBus

variable {μ : Type} [Master μ]

namespace Bus

/-- What the input half of a cycle does to a bus. -/
structure ReadBy (b b' : Bus μ) : Prop where
  found : ∀ (n : Nat) (s : Slave), b.slaves[n]? = some s → s.isActive = true → b.Finds n →
    ∃ s', b'.slaves[n]? = some s' ∧ s.ReadFrom (Master.image b.master) s'
  /-- A slave that does not take part has only been asked for its state. -/
  passed : ∀ (n : Nat) (s : Slave), b.slaves[n]? = some s → ¬ (s.isActive = true ∧ b.Finds n) →
    ∃ s', b'.slaves[n]? = some s' ∧ s' = { s with state := s'.state }
  length : b'.slaves.length = b.slaves.length
  image : Master.image b'.master = Master.image b.master
  /-- All that the master is asked for are states. -/
  requests : ∀ call ∈ b.traced.read.master.calls, call.request? = none

namespace Session

variable {registry : Registry}

/-- In a run an active slave has all that the input half of a cycle needs of it. -/
theorem readable_of_run {name : String} {m : μ} {ops : List (Operation μ)} {n : Nat} {s : Slave}
    {rig : Rig} (hs : ((start name m).run registry ops).bus.slaves[n]? = some s)
    (hrig : s.rig? = some rig) : s.Readable μ rig := by
  have hvalid := (valid_start registry name m).run ops
  have hactive : s.isActive = true := by
    rw [Slave.isActive, hrig]
    rfl
  obtain ⟨before, -, t, ht, hhold⟩ := exists_hold_of_run hs hactive
  have hheld := Slave.held_of_hold_eq hhold (fun _ => of_configured ht) hrig
  have hsees := Slave.sees_of_hold_eq hhold (fun rig' hrig' => ?_) hrig
  · exact ⟨hrig, hvalid.sound s (List.mem_of_getElem? hs), hheld.1, hsees⟩
  · obtain ⟨t₀, -, hact⟩ := getElem?_activateAll ht
    exact Slave.sees_of_activate hact hrig'

end Session

variable {b : Bus μ} {n : Nat} {s : Slave}

/-- What the input half makes of a slave, if asking for states leaves the image alone. -/
theorem exists_getElem?_read (hμ : Master.Discreet μ) (hs : b.slaves[n]? = some s) :
    ∃ state, b.read.slaves[n]? = some (Slave.read { s with state } (Master.image b.master)) ∧
      (state.operational = true ↔ b.Finds n) := by
  have hget := getElem?_readAll hs (m := b.master)
  have himage : Master.image
      (s.updateState (readAll (b.slaves.take n) b.master).2).2 = Master.image b.master := by
    rw [s.image_updateState hμ, image_readAll hμ]
  rw [himage, Slave.updateState_eq] at hget
  refine ⟨_, hget, ?_⟩
  rw [← isUp_read_iff, IsUp, states, List.getElem?_map]
  have hread : b.read.slaves[n]? = _ := hget
  rw [hread, Option.map_some, Slave.state_read]
  simp

theorem readBy_of_readable (hμ : Master.Discreet μ)
    (h : ∀ (n : Nat) s rig, b.slaves[n]? = some s → s.rig? = some rig → s.Readable μ rig) :
    b.ReadBy b.read where
  found n s hs ha hn := by
    obtain ⟨rig, hrig⟩ := Option.isSome_iff_exists.1 ha
    obtain ⟨state, hget, ho⟩ := exists_getElem?_read hμ hs
    have hcyclic : Slave.cyclic? { s with state } = some rig := by
      rw [Slave.cyclic?, if_pos (ho.2 hn)]
      exact hrig
    rw [Slave.read, hcyclic] at hget
    exact ⟨_, hget, (h n s rig hs hrig).readFrom _ state⟩
  passed n s hs hn := by
    obtain ⟨state, hget, ho⟩ := exists_getElem?_read hμ hs
    have hidle : Slave.isOperational { s with state } = false := by
      rw [← Bool.not_eq_true, Slave.isOperational, Bool.and_eq_true]
      rintro ⟨ha, hup⟩
      exact hn ⟨ha, ho.1 hup⟩
    rw [Slave.read_of_not_operational hidle] at hget
    exact ⟨_, hget, rfl⟩
  length := length_readAll b.slaves b.master
  image := image_readAll hμ b.slaves b.master
  requests call hcall := by
    have h : b.traced.read.master.calls = _ := calls_readAll b.slaves (Traced.mk b.master [])
    rw [h, List.append_nil, List.mem_reverse] at hcall
    obtain ⟨s, -, rfl⟩ := List.mem_map.1 hcall
    rfl

/-- In every state of a run the input half of a cycle shows the process image in the pins of the
active slaves that it finds operational, without a loss, and leaves all the rest as it is. -/
theorem readBy_of_run (hμ : Master.Discreet μ) (registry : Registry) (name : String) (m : μ)
    (ops : List (Operation μ)) :
    ReadBy ((Session.start name m).run registry ops).bus
      ((Session.start name m).run registry ops).bus.read :=
  readBy_of_readable hμ fun _ _ _ => Session.readable_of_run

end Bus

end ServoBus
