import ServoBus.Axis.Channel
import ServoBus.Proofs.Axis.Address
import ServoBus.Proofs.Setup

/-!
# Registering the entries of a channel

The entries of a channel are its two words and its mapped objects, the inputs before the
outputs. They are registered in a list of their own, so at the end each reference denotes
the entry of its object in the list of the slave.
-/

namespace ServoBus

namespace Axis

/-- The control word or the status word as it is registered. -/
def wordEntry (site : Site) (base : UInt16) (s : Side) : Registration :=
  ⟨site.position, ⟨base + s.word, 0⟩, 16, none⟩

/-- An object as it is registered. -/
def objectEntry (site : Site) (base : UInt16) (d : DriveObject) : Registration :=
  ⟨site.position, ⟨d.index base, d.subindex⟩, d.format.width, none⟩

def mappedObjects (enabled : FeatureSet) : List (Feature × DriveObject) :=
  enabled.objects .input ++ enabled.objects .output

def channelEntries (site : Site) (base : UInt16) (enabled : FeatureSet) : List Registration :=
  wordEntry site base .output :: wordEntry site base .input ::
    (mappedObjects enabled).map fun x => objectEntry site base x.2

theorem mem_mappedObjects {enabled : FeatureSet} {f : Feature} {d : DriveObject} :
    (f, d) ∈ mappedObjects enabled ↔
      f ∈ enabled ∧ f.object? = some d ∧ d.transfer ≠ .service := by
  rw [mappedObjects, List.mem_append, FeatureSet.mem_objects, FeatureSet.mem_objects]
  constructor
  · rintro (⟨hf, hd, ht⟩ | ⟨hf, hd, ht⟩)
    · exact ⟨hf, hd, by rw [ht]; decide⟩
    · exact ⟨hf, hd, by rw [ht]; decide⟩
  · rintro ⟨hf, hd, ht⟩
    cases ht' : d.transfer with
    | input => exact .inl ⟨hf, hd, rfl⟩
    | output => exact .inr ⟨hf, hd, rfl⟩
    | service => exact absurd ht' ht

namespace Channel

variable {site : Site} {base : UInt16}

/-- Each object is registered under a reference of its own, behind those that are there. -/
theorem of_result_registerObjects {l : List (Feature × DriveObject)} {r r' : Registrations}
    {xs : List Registered} (h : (registerObjects site base l).result r = (.ok xs, r')) :
    r' = r.extend (l.map fun x => objectEntry site base x.2) ∧
      xs.map (fun x => (x.feature, x.object)) = l ∧
      ∀ x ∈ xs, r'.get? x.entry = some (objectEntry site base x.object) := by
  induction l generalizing r r' xs with
  | nil =>
    rw [registerObjects, Action.result_pure_eq_ok_iff] at h
    obtain ⟨rfl, rfl⟩ := h
    refine ⟨?_, rfl, ?_⟩
    · simp [Registrations.extend]
    · intro x hx
      cases hx
  | cons p rest ih =>
    obtain ⟨f, d⟩ := p
    rw [registerObjects] at h
    simp only [Action.result_bind_eq_ok_iff, Action.result_pure_eq_ok_iff,
      Registrations.result_register_eq_ok_iff] at h
    obtain ⟨ref, r₁, ⟨-, rfl, rfl⟩, ys, r₂, hrest, rfl, rfl⟩ := h
    obtain ⟨hr, hys, hget⟩ := ih hrest
    refine ⟨?_, ?_, ?_⟩
    · rw [hr]
      simp [Registrations.extend, objectEntry]
    · rw [List.map_cons, hys]
    · intro x hx
      rcases List.mem_cons.1 hx with rfl | hx
      · rw [hr, Registrations.get?_extend]
        · exact List.getElem?_concat_length ..
        · rw [Registrations.size_extend]
          exact Nat.lt_succ_self _
      · exact hget x hx

/-- In a list of its own a channel registers exactly its entries. -/
theorem of_result_registerEntries {enabled : FeatureSet} {device : String} {capacity : Nat}
    {own : Registrations} {control status : RegRef} {xs : List Registered}
    (h : (registerEntries site base enabled).result ⟨device, capacity, []⟩ =
      (.ok (control, status, xs), own)) :
    own.entries = channelEntries site base enabled ∧
      own.get? control = some (wordEntry site base .output) ∧
      own.get? status = some (wordEntry site base .input) ∧
      xs.map (fun x => (x.feature, x.object)) = mappedObjects enabled ∧
      ∀ x ∈ xs, own.get? x.entry = some (objectEntry site base x.object) := by
  rw [registerEntries] at h
  simp only [Action.result_bind_eq_ok_iff, Action.result_pure_eq_ok_iff,
    Registrations.result_register_eq_ok_iff] at h
  obtain ⟨_, r₁, ⟨-, rfl, rfl⟩, _, r₂, ⟨-, rfl, rfl⟩, ins, r₃, hins, outs, r₄, houts, hval,
    rfl⟩ := h
  rw [Prod.mk.injEq, Prod.mk.injEq] at hval
  obtain ⟨rfl, rfl, rfl⟩ := hval
  obtain ⟨rfl, hinsl, hinsget⟩ := of_result_registerObjects hins
  obtain ⟨rfl, houtsl, houtsget⟩ := of_result_registerObjects houts
  refine ⟨?_, rfl, rfl, ?_, ?_⟩
  · rw [channelEntries, mappedObjects, List.map_append]
    rfl
  · rw [List.map_append, hinsl, houtsl, mappedObjects]
  · intro x hx
    rcases List.mem_append.1 hx with hx | hx
    · have hget := hinsget x hx
      rw [Registrations.get?_extend]
      · exact hget
      · exact (List.getElem?_eq_some_iff.1 hget).1
    · exact houtsget x hx

end Channel

end Axis

end ServoBus
