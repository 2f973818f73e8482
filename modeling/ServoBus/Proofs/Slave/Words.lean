import ServoBus.Bus.Words
import ServoBus.Proofs.Device.Words
import ServoBus.Proofs.Slave.Answers
import ServoBus.Proofs.Slave.Drives

/-!
# Slaves in machine words

What comes out of an activation in words is what comes out of it with exact numbers. It breaks only
if an entry was placed where its bits cannot be counted, which a modest master never does. A cycle
of a slave breaks only if there are bits of it that cannot be counted.
-/

namespace ServoBus

section Action

variable {P : Prop} {σ α β : Type} {x : Brittle σ α} {y : Action σ α} {f : α → Brittle σ β}
  {g : α → Action σ β} {s : σ}

/-- Steps go side by side, and what follows one may rely on it that it was carried out. -/
theorem Yields.andThen (hxy : Yields P (x.result? s) (y.result s))
    (hfg : ∀ a t, y.result s = (.ok a, t) → Yields P ((f a).result? t) ((g a).result t)) :
    Yields P ((x >>= f).result? s) ((y >>= g).result s) := by
  have hcases : (x >>= f).result? s = (x.result? s).bind fun r =>
      match r with
      | (.error e, t) => some (.error e, t)
      | (.ok a, t) => (f a).result? t := by
    rw [Brittle.result?_bind]
    rcases x.result? s with - | ⟨e | a, t⟩ <;> rfl
  rw [hcases, Action.result_bind]
  refine hxy.bind fun _ => ?_
  rcases hy : y.result s with ⟨e | a, t⟩
  · exact yields_some _
  · exact hfg a t hy

theorem yields_ofAction (y : Action σ α) (s : σ) :
    Yields P ((Brittle.ofAction y).result? s) (y.result s) := yields_some _

end Action

variable {μ : Type} [Master μ]

/-- Every entry that the master places ends long before the bits run out that can be counted. -/
def Master.Modest (μ : Type) [Master μ] : Prop :=
  ∀ (slave : Position) (a : ObjectAddress) (m m' : μ) (o : Offset),
    Master.locateEntry slave a m = (.ok o, m') → o.position + 32 < 4294967296

theorem Bench.modest : Master.Modest Bench := by
  intro slave a m m' o h
  simp only [Master.locateEntry, Prod.mk.injEq, Except.ok.injEq] at h
  rw [← h.1, Offset.position]
  have hlt := a.index.toNat_lt
  dsimp only
  omega

/-- A modest master places entries of drives where their bits can be counted. -/
theorem Registrations.Placed.fits (hμ : Master.Modest μ) {entries : List Registration}
    (h : Placed μ entries) (hw : ∀ e ∈ entries, e.width ∈ [8, 16, 32]) :
    ∀ e ∈ entries, e.Fits := by
  intro e he o ho
  obtain ⟨o', ho', m, m', hplace⟩ := h e he
  cases ho.symm.trans ho'
  have hnear := hμ _ _ _ _ _ hplace
  have hwidth := hw e he
  simp only [List.mem_cons, List.not_mem_nil, or_false] at hwidth
  exact lt_size_of_lt (by omega)

namespace Slave

variable {s : Slave}

section Activation

theorem wired_of_result_prepare {rig : Rig} {w w' : Workspace μ} (hregs : w.regs.entries = [])
    (hpins : w.pins.names.Nodup) (h : s.prepare.result w = (.ok rig, w')) :
    rig.Wired s.site s.type w'.regs w'.pins := by
  obtain ⟨w₁, hset, hregs', hpins'⟩ := exists_of_result_prepare h
  rw [hregs', hpins']
  exact DeviceType.wired_of_result_setUp hregs hpins hset

/-- The entries that are checked in an activation fit if the master is modest. -/
theorem fits_of_ask (hμ : Master.Modest μ) {m : μ} {rig : Rig} {w w' : Workspace μ}
    (hprep : s.prepare.result (s.start m) = (.ok rig, w))
    (hask : Setup.ask.result w = (.ok (), w')) : ∀ e ∈ w'.regs.entries, e.Fits := by
  rw [Setup.result_ask, Prod.mk.injEq] at hask
  obtain ⟨hok, rfl⟩ := hask
  refine (Registrations.placed_locateFrom hok).fits hμ fun e he => ?_
  have hwanted := List.mem_map_of_mem (f := Registration.unplaced) he
  rw [Registrations.map_unplaced_locateFrom] at hwanted
  have hwired := wired_of_result_prepare (w := s.start m) rfl List.nodup_nil hprep
  exact hwired.widths e.unplaced hwanted

theorem yields_setUp (s : Slave) (m : μ) :
    Yields (Master.Modest μ) (s.setUp?.result? (s.start m)) (s.setUp.result (s.start m)) := by
  refine (yields_ofAction s.prepare (s.start m)).andThen fun rig w hprep => ?_
  have hlocate : Yields (Master.Modest μ) (Setup.locate?.result? w) (Setup.locate.result w) := by
    rw [Setup.result_locate_eq]
    refine (yields_ofAction Setup.ask w).andThen fun _ w' hask => ?_
    have hcheck := (yields_checkOverlap w'.regs.entries).mono fun hμ => fits_of_ask hμ hprep hask
    refine (yields_some _).andThen fun v _ hget => ?_
    cases hget
    rw [Brittle.result?_checkOverlap]
    exact hcheck.map fun check => (check.outcome, w')
  exact hlocate.andThen fun _ _ _ => yields_some _

theorem value_activate? (s : Slave) (m : μ) :
    (s.activate? m).run.value =
      (s.setUp?.result? (s.start m)).map fun x => (s.conclude x.1 x.2).value := by
  rw [activate?, Logged.value_run_bind, Option.map_eq_bind]
  rfl

theorem yields_activate (s : Slave) (m : μ) :
    Yields (Master.Modest μ) (s.activate? m).run.value (s.activate m).value := by
  rw [value_activate?]
  exact (s.yields_setUp m).map _

end Activation

section Cycle

/-- All that a cycle of the slave has to count can be counted. -/
def Within (s : Slave) : Prop := ∀ rig, s.rig? = some rig → rig.Within s.regs

theorem yields_read (s : Slave) (image : Bytes) :
    Yields s.Within (s.read? image) (s.read image) := by
  unfold read? read
  cases hrig : s.cyclic? with
  | none => exact yields_some _
  | some rig =>
    have hread := (rig.yields_read s.regs image s.pins).mono fun h : s.Within =>
      h rig (rig?_of_cyclic?_eq_some hrig)
    exact hread.bind fun _ => yields_some _

theorem yields_write (s : Slave) (m : μ) :
    Yields s.Within (s.write? m).run.value (s.write m).value := by
  unfold write? write
  cases hrig : s.cyclic? with
  | none => exact yields_some _
  | some rig =>
    have hwrite := (rig.yields_write s.regs s.pins m).mono fun h : s.Within =>
      h rig (rig?_of_cyclic?_eq_some hrig)
    dsimp only
    rw [Logged.value_run_bind]
    exact hwrite.bind fun _ => yields_some _

end Cycle

end Slave

end ServoBus
