import ServoBus.Proofs.Bus.Fresh
import ServoBus.Proofs.Slave.Settled
import ServoBus.Proofs.Trace

/-!
# The calls of a cycle

A cycle does the same whether its master is traced or not. The input half asks for the state of
every slave and makes no other call. In the output half the only requests that are polled or
written are those of slaves that take part, and of those only the ones of services that have
something to do.
-/

namespace ServoBus

variable {μ ν : Type} [Master μ] [Master ν] {f : μ → ν}

/-! ## Masters that a cycle cannot tell apart -/

section Carries

namespace Writer

theorem send_carried (h : Master.Carries f) (w : Writer) (v : Int) (m : μ) :
    w.send v (f m) = Prod.map id f (w.send v m) := by
  unfold send
  split
  · rfl
  · rw [h.startWrite]
    rfl

theorem write_carried (h : Master.Carries f) (w : Writer) (v : Int) (m : μ) :
    w.write v (f m) = Prod.map id f <$> w.write v m := by
  unfold write
  split
  · rw [h.requestState]
    rcases Master.requestState w.request m with ⟨_ | _ | _ | _, m⟩
    · rfl
    · rfl
    · simp only [Prod.map, id, send_carried h]
      rfl
    · rfl
  · rw [send_carried h]
    rfl

end Writer

namespace Axis.Channel

theorem serve_carried (h : Master.Carries f) (pins : PinTable) (xs : List Served) (m : μ) :
    serve pins xs (f m) = Prod.map id f <$> serve pins xs m := by
  induction xs generalizing m with
  | nil => rfl
  | cons x xs ih => simp [serve, Writer.write_carried h, ih]

theorem write_carried (h : Master.Carries f) (c : Channel) (regs : Registrations)
    (pins : PinTable) (m : μ) :
    c.write regs pins (f m) = Prod.map id f <$> c.write regs pins m := by
  simp [write, Master.mapImage, h.image, h.setImage, serve_carried h]

end Axis.Channel

namespace Rig

theorem writeChannels_carried (h : Master.Carries f) (regs : Registrations) (pins : PinTable)
    (cs : List Axis.Channel) (m : μ) :
    writeChannels regs pins cs (f m) = Prod.map id f <$> writeChannels regs pins cs m := by
  induction cs generalizing m with
  | nil => rfl
  | cons c cs ih => simp [writeChannels, Axis.Channel.write_carried h, ih]

theorem write_carried (h : Master.Carries f) (r : Rig) (regs : Registrations)
    (pins : PinTable) (m : μ) :
    r.write regs pins (f m) = Prod.map id f <$> r.write regs pins m := by
  simp [write, writeChannels_carried h, Master.mapImage, h.image, h.setImage]

end Rig

namespace Slave

theorem write_carried (h : Master.Carries f) (s : Slave) (m : μ) :
    s.write (f m) = Prod.map id f <$> s.write m := by
  unfold write
  split
  · simp [Rig.write_carried h]
  · rfl

theorem updateState_carried (h : Master.Carries f) (s : Slave) (m : μ) :
    s.updateState (f m) = Prod.map id f (s.updateState m) := by
  unfold updateState
  rw [h.slaveState]
  rcases Master.slaveState s.site.position m with ⟨_ | _, m⟩ <;> rfl

end Slave

namespace Bus

theorem readAll_carried (h : Master.Carries f) (slaves : List Slave) (m : μ) :
    readAll slaves (f m) = Prod.map id f (readAll slaves m) := by
  induction slaves generalizing m with
  | nil => rfl
  | cons s rest ih => simp [readAll, Slave.updateState_carried h, h.image, ih]

theorem writeAll_carried (h : Master.Carries f) (slaves : List Slave) (m : μ) :
    writeAll slaves (f m) = Prod.map id f <$> writeAll slaves m := by
  induction slaves generalizing m with
  | nil => rfl
  | cons s rest ih => simp [writeAll, Slave.write_carried h, ih]

end Bus

end Carries

/-! ## What a cycle asks of its master -/

/-- A call that polls or writes no other request. -/
def MasterCall.Only (r : RequestRef) (call : MasterCall) : Prop :=
  ∀ r', call.request? = some r' → r' = r

theorem Writer.adds_send (w : Writer) (v : Int) (t : Traced μ) :
    t.Adds (MasterCall.Only w.request) (w.send v t).2 := by
  unfold send
  split
  · exact .refl t
  · exact .single (by rintro r ⟨⟩; rfl) _

theorem Writer.adds_write (w : Writer) (v : Int) (t : Traced μ) :
    t.Adds (MasterCall.Only w.request) (w.write v t).value.2 := by
  have hpoll : MasterCall.Only w.request (.requestState w.request) := by
    rintro r ⟨⟩
    rfl
  unfold write
  split
  · simp only [Master.requestState, Traced.pass]
    rcases Master.requestState w.request t.master with ⟨_ | _ | _ | _, m⟩
    · exact .single hpoll m
    · exact .single hpoll m
    · exact .trans (.single hpoll m) (adds_send { w with last := w.pending, phase := .done } v _)
    · exact .single hpoll m
  · exact w.adds_send v t

/-- A call that polls or writes none but requests of services with something to do. -/
def MasterCall.For (pins : PinTable) (xs : List Axis.Served) (call : MasterCall) : Prop :=
  ∀ r, call.request? = some r → ∃ x ∈ xs, ¬ x.Settled pins ∧ x.writer.request = r

theorem MasterCall.For.mono {pins : PinTable} {xs xs' : List Axis.Served} {call : MasterCall}
    (h : call.For pins xs) (hx : xs ⊆ xs') : call.For pins xs' := by
  intro r hr
  obtain ⟨x, hmem, hrest⟩ := h r hr
  exact ⟨x, hx hmem, hrest⟩

namespace Axis.Channel

/-- The requests of a channel. -/
def requests (c : Channel) : List RequestRef := c.services.map (·.writer.request)

theorem adds_serve (pins : PinTable) (xs : List Served) (t : Traced μ) :
    t.Adds (MasterCall.For pins xs) (serve pins xs t).value.2 := by
  induction xs generalizing t with
  | nil => exact .refl t
  | cons x xs ih =>
    simp only [serve, Logged.value_bind, Logged.value_pure]
    have hrest (t' : Traced μ) := (ih t').imp fun call h => h.mono (List.subset_cons_self x xs)
    by_cases hx : x.Settled pins
    · rw [hx.write]
      exact hrest t
    · refine .trans ((x.writer.adds_write _ t).imp fun call h r hr => ?_) (hrest _)
      exact ⟨x, List.mem_cons_self, hx, (h r hr).symm⟩

theorem adds_write (c : Channel) (regs : Registrations) (pins : PinTable) (t : Traced μ) :
    t.Adds (MasterCall.For pins c.services) (c.write regs pins t).value.2 :=
  .trans (.single nofun _) (adds_serve pins c.services _)

end Axis.Channel

theorem Rig.adds_writeChannels (regs : Registrations) (pins : PinTable)
    (cs : List Axis.Channel) (t : Traced μ) :
    t.Adds (MasterCall.For pins (cs.flatMap (·.services)))
      (writeChannels regs pins cs t).value.2 := by
  induction cs generalizing t with
  | nil => exact .refl t
  | cons c cs ih =>
    simp only [writeChannels, Logged.value_bind, Logged.value_pure, List.flatMap_cons]
    exact .trans
      ((c.adds_write regs pins t).imp fun call h => h.mono (List.subset_append_left _ _))
      ((ih _).imp fun call h => h.mono (List.subset_append_right _ _))

namespace Slave

/-- The requests of an active slave. -/
def requests (s : Slave) : List RequestRef := s.channels.flatMap (·.requests)

/-- The services of an active slave. -/
def services (s : Slave) : List Axis.Served := s.channels.flatMap (·.services)

theorem requests_eq (s : Slave) : s.requests = s.services.map (·.writer.request) := by
  rw [services, List.map_flatMap]
  rfl

theorem exists_service? {s : Slave} {x : Axis.Served} (hx : x ∈ s.services) :
    ∃ k j, s.service? k j = some x := by
  obtain ⟨c, hc, hx⟩ := List.mem_flatMap.1 hx
  obtain ⟨k, hk⟩ := List.mem_iff_getElem?.1 hc
  obtain ⟨j, hj⟩ := List.mem_iff_getElem?.1 hx
  exact ⟨k, j, service?_eq_some_iff.2 ⟨c, hk, hj⟩⟩

theorem adds_write (s : Slave) (t : Traced μ) :
    t.Adds
      (fun call => call.For s.pins s.services ∧ (call.request?.isSome → s.isOperational = true))
      (s.write t).value.2 := by
  cases hop : s.isOperational with
  | false =>
    rw [write_of_not_operational hop]
    exact .refl t
  | true =>
    rw [← s.cyclic?_isSome, Option.isSome_iff_exists] at hop
    obtain ⟨rig, hrig⟩ := hop
    have hservices : s.services = rig.channels.flatMap (·.services) := by
      rw [services, channels, rig?_of_cyclic?_eq_some hrig]
      rfl
    rw [write, hrig, hservices]
    refine .trans
      ((Rig.adds_writeChannels s.regs s.pins rig.channels t).imp fun call h => ⟨h, fun _ => rfl⟩)
      (.single ⟨fun r hr => ?_, fun hsome => ?_⟩ _)
    · cases hr
    · cases hsome

end Slave

theorem Slave.calls_updateState (s : Slave) (t : Traced μ) :
    (s.updateState t).2.calls = .slaveState s.site.position :: t.calls := by
  simp only [updateState, Master.slaveState, Traced.pass]
  rcases Master.slaveState s.site.position t.master with ⟨_ | _, m⟩ <;> rfl

namespace Bus

theorem calls_readAll (slaves : List Slave) (t : Traced μ) :
    (readAll slaves t).2.calls =
      (slaves.map fun s => MasterCall.slaveState s.site.position).reverse ++ t.calls := by
  induction slaves generalizing t with
  | nil => rfl
  | cons s rest ih => simp [readAll, ih, Slave.calls_updateState]

/-- Every request that is polled or written in the output half is that of a service of a slave
that takes part, and the service has something to do. -/
theorem adds_writeAll (slaves : List Slave) (t : Traced μ) :
    t.Adds
      (fun call => ∀ r, call.request? = some r →
        ∃ s ∈ slaves, s.isOperational = true ∧
          ∃ x ∈ s.services, ¬ x.Settled s.pins ∧ x.writer.request = r)
      (writeAll slaves t).value.2 := by
  induction slaves generalizing t with
  | nil => exact .refl t
  | cons s rest ih =>
    simp only [writeAll, Logged.value_bind, Logged.value_pure]
    refine .trans ((s.adds_write t).imp fun call h r hr => ?_) ((ih _).imp fun call h r hr => ?_)
    · exact ⟨s, List.mem_cons_self, h.2 (by rw [hr]; rfl), h.1 r hr⟩
    · obtain ⟨q, hq, hrest⟩ := h r hr
      exact ⟨q, List.mem_cons_of_mem _ hq, hrest⟩

end Bus

end ServoBus
