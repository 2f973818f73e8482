import ServoBus.Proofs.Action.Failure
import ServoBus.Proofs.Axis.Layout

/-!
# Entries that the sync managers map

`Layout.Maps` is what one step of describing the sync managers does to the mapped entries: a
success adds entries behind all others and keeps to the limit, and a failure is one of the layout
and not for want of room for registrations, as there are none yet. The steps of a loop and of a
sequence add up, so the entries of a drive are read off the text of `Layout.build`.
-/

namespace ServoBus

/-- There is no room for further registrations. -/
def Fault.IsRegistrationsFull (e : Fault) : Prop :=
  ∃ device used limit, e = .registrationsFull device used limit

/-- The shape of a drive is at fault: its options, its sync managers or its pins. -/
def Fault.OfShape : Fault → Prop
  | .tooManyChannels .. | .misconfigured .. | .syncsFull .. | .pdosFull .. | .entriesFull ..
  | .noCurrentSync .. | .noCurrentPdo .. | .duplicatePin .. => True
  | _ => False

theorem Fault.OfShape.not_isRegistrationsFull {e : Fault} (h : e.OfShape) :
    ¬ e.IsRegistrationsFull := by
  rintro ⟨device, used, limit, rfl⟩
  exact h

/-- The layout of a drive is at fault: its options or its sync managers. -/
def Fault.OfLayout : Fault → Prop
  | .tooManyChannels .. | .misconfigured .. | .syncsFull .. | .pdosFull .. | .entriesFull ..
  | .noCurrentSync .. | .noCurrentPdo .. => True
  | _ => False

theorem Fault.OfLayout.ofShape {e : Fault} (h : e.OfLayout) : e.OfShape := by
  cases e with
  | duplicatePin name => exact h.elim
  | _ => exact h

namespace Axis.Layout

open ServoBus.Action (FailsWith)
open Sync (Builder Entry)

variable {α β : Type}

/-- A successful action maps these entries behind all others and keeps to the limit. One that
fails does so because of the layout of the drive. -/
structure Maps (x : Action Builder α) (es : List Entry) : Prop where
  entries : ∀ {b a b'}, x.result b = (.ok a, b') → b'.entries = b.entries ++ es
  room : ∀ {b a b'}, x.result b = (.ok a, b') → b.entries.length ≤ Sync.entryLimit →
    b'.entries.length ≤ Sync.entryLimit
  fault : FailsWith Fault.OfLayout x

section Step

variable {es es' : List Entry}

theorem maps_pure (a : α) : Maps (pure a : Action Builder α) [] where
  entries h := by
    cases h
    exact (List.append_nil _).symm
  room h hb := by
    cases h
    exact hb
  fault := Action.failsWith_pure a

theorem maps_get : Maps (get : Action Builder Builder) [] where
  entries h := by
    cases h
    exact (List.append_nil _).symm
  room h hb := by
    cases h
    exact hb
  fault := Action.failsWith_get

theorem Maps.bind {x : Action Builder α} {f : α → Action Builder β} (hx : Maps x es)
    (hf : ∀ a, Maps (f a) es') : Maps (x >>= f) (es ++ es') where
  entries h := by
    obtain ⟨a, t, hxr, hfr⟩ := Action.result_bind_eq_ok_iff.1 h
    rw [(hf a).entries hfr, hx.entries hxr, List.append_assoc]
  room h hb := by
    obtain ⟨a, t, hxr, hfr⟩ := Action.result_bind_eq_ok_iff.1 h
    exact (hf a).room hfr (hx.room hxr hb)
  fault := hx.fault.bind fun a => (hf a).fault

/-- Each round of a loop maps entries of its own. -/
theorem maps_forM {f : β → Action Builder PUnit} {g : β → List Entry}
    (hf : ∀ x, Maps (f x) (g x)) (xs : List β) : Maps (xs.forM f) (xs.flatMap g) := by
  induction xs with
  | nil => exact maps_pure ()
  | cons x xs ih => exact (hf x).bind fun _ => ih

/-- What is refused maps whatever is asked for, as it never succeeds. -/
theorem maps_refuse (reason : Reason) (es : List Entry) :
    Maps (refuse reason : Action Builder α) es where
  entries h := (result_refuse_ne_ok h).elim
  room h := (result_refuse_ne_ok h).elim
  fault := by
    refine Action.failsWith_get.bind fun b => Action.failsWith_ofChecked ?_
    intro e he
    cases he
    trivial

/-- The entries of all sync managers are those of all PDOs. -/
theorem entries_eq_flatMap_pdos (b : Builder) : b.entries = b.pdos.flatMap (·.entries) := by
  rw [Builder.entries, Builder.pdos, List.flatMap_assoc]
  rfl

theorem maps_addManager (direction : Sync.Direction) (watchdog : Sync.Watchdog) :
    Maps (Builder.addManager direction watchdog) [] := by
  have hok {b b' : Builder} {u : Unit}
      (h : (Builder.addManager direction watchdog).result b = (.ok u, b')) :
      b'.entries = b.entries := by
    rw [Builder.result_addManager] at h
    split at h
    · cases h
    · cases h
      rw [Builder.entries, Builder.managers_cons, List.flatMap_append]
      exact List.append_nil _
  constructor
  · intro b u b' h
    rw [hok h, List.append_nil]
  · intro b u b' h hb
    rwa [hok h]
  · intro b e b' h
    rw [Builder.result_addManager] at h
    split at h <;> cases h
    trivial

theorem maps_addPdo (pdo : Nat) : Maps (addPdo pdo) [] := by
  have hok {index : UInt16} {b b' : Builder} {u : Unit}
      (h : (Builder.addPdo index).result b = (.ok u, b')) : b'.entries = b.entries := by
    rw [Builder.result_addPdo] at h
    split at h
    · cases h
    · next latest hpush =>
      split at h
      · cases h
      · cases h
        rw [entries_eq_flatMap_pdos, entries_eq_flatMap_pdos, Builder.pdos_pushPdo? hpush,
          List.flatMap_append]
        exact List.append_nil _
  refine maps_get.bind fun b => ?_
  split
  · exact maps_refuse _ _
  constructor
  · intro b u b' h
    rw [hok h, List.append_nil]
  · intro b u b' h hb
    rwa [hok h]
  · intro b e b' h
    rw [Builder.result_addPdo] at h
    split at h
    · cases h
      trivial
    · split at h <;> cases h
      trivial

theorem maps_addEntry (e : Entry) : Maps (Builder.addEntry e) [e] := by
  have hok {b b' : Builder} {u : Unit} (h : (Builder.addEntry e).result b = (.ok u, b')) :
      b.entries.length < Sync.entryLimit ∧ b'.entries = b.entries ++ [e] := by
    rw [Builder.result_addEntry, Builder.entryCount_eq] at h
    split at h
    · cases h
    · next latest hpush =>
      split at h
      · cases h
      · next hroom =>
        cases h
        exact ⟨Nat.not_le.1 hroom, Builder.entries_pushEntry? hpush⟩
  constructor
  · intro b u b' h
    exact (hok h).2
  · intro b u b' h _
    rw [(hok h).2, List.length_append]
    exact (hok h).1
  · intro b e' b' h
    rw [Builder.result_addEntry] at h
    split at h
    · cases h
      trivial
    · split at h <;> cases h
      trivial

end Step

section Drive

variable {o : Options} {s : Side}

theorem maps_flowOn (first : Nat) (c : Cursor) : Maps (flowOn o s first c) [] := by
  unfold flowOn
  split
  · exact maps_refuse _ _
  · split
    · exact maps_refuse _ _
    · exact (maps_addPdo _).bind fun _ => maps_pure _

theorem maps_addEntries (first : Nat) (c : Cursor) (es : List Entry) :
    Maps (addEntries o s first c es) es := by
  induction es generalizing c with
  | nil => exact maps_pure ()
  | cons e es ih =>
    have hgo (c : Cursor) : Maps (do
        Builder.addEntry e
        addEntries o s first { c with filled := c.filled + 1 } es) (e :: es) :=
      (maps_addEntry e).bind fun _ => ih _
    rw [addEntries]
    split
    · exact (maps_flowOn first c).bind hgo
    · exact (maps_pure c).bind hgo

theorem maps_firstPdo (channel : Nat) : Maps (firstPdo o s channel) [] := by
  dsimp only [firstPdo]
  split
  · exact maps_pure _
  · exact maps_refuse _ _

theorem maps_addChannel (channel : Nat) (enabled : FeatureSet) :
    Maps (addChannel o s channel enabled) (s.entries channel enabled) := by
  refine (maps_firstPdo channel).bind fun first => ?_
  have hadd : Maps (do
      addPdo first
      addEntries o s first ⟨first, 1, 0⟩ (s.entries channel enabled))
      (s.entries channel enabled) :=
    (maps_addPdo first).bind fun _ => maps_addEntries first _ _
  split
  · exact (maps_refuse _ []).bind fun _ => hadd
  · exact hadd

/-- What the channels in use map in one direction. -/
def sideEntries (o : Options) (s : Side) : List Entry :=
  o.active.zipIdx.flatMap fun p => s.entries p.2 p.1.requested.resolve

theorem maps_addSide : Maps (addSide o s) (sideEntries o s) := by
  refine (maps_addManager _ _).bind fun _ => ?_
  refine maps_forM (fun p => ?_) _
  exact maps_addChannel p.2 p.1.requested.resolve

theorem maps_build : Maps (build o) (sideEntries o .output ++ sideEntries o .input) := by
  have hmail : Maps addMailbox [] := (maps_addManager _ _).bind fun _ => maps_addManager _ _
  exact hmail.bind fun _ => maps_addSide.bind fun _ => maps_addSide

end Drive

end Axis.Layout

end ServoBus
