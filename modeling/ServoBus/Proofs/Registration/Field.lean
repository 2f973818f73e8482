import Mathlib.Data.List.Nodup
import ServoBus.Image.Field
import ServoBus.Proofs.Image.Assign
import ServoBus.Proofs.Master
import ServoBus.Proofs.Registration.Overlap
import ServoBus.Proofs.Registration.Register

/-!
# The field of an entry

An entry with a place is a field of the image. As long as no two entries of a slave have one
address, the field of an object is found by its address, and it is the field of every
reference to the entry.
-/

namespace ServoBus

namespace Registration

/-- The bits of the entry, once it has a place. -/
def field? (r : Registration) : Option Field := r.offset?.map (⟨·, r.width⟩)

theorem covers_iff {r : Registration} {i : Nat} :
    r.Covers i ↔ ∃ F, r.field? = some F ∧ F.Covers i := by
  simp only [field?, Option.map_eq_some_iff]
  constructor
  · intro ⟨o, ho, hi⟩
    exact ⟨⟨o, r.width⟩, ⟨o, ho, rfl⟩, hi⟩
  · intro ⟨F, ⟨o, ho, heq⟩, hi⟩
    rw [← heq] at hi
    exact ⟨o, ho, hi⟩

end Registration

namespace Registrations

/-- The field of the object with an address. -/
def field? (r : Registrations) (a : ObjectAddress) : Option Field :=
  (r.entries.find? (·.address == a)).bind (·.field?)

variable {r : Registrations}

theorem exists_of_field?_eq_some {a : ObjectAddress} {F : Field} (h : r.field? a = some F) :
    ∃ e ∈ r.entries, e.address = a ∧ e.field? = some F := by
  obtain ⟨e, he, hF⟩ := Option.bind_eq_some_iff.1 h
  have haddr := List.find?_some he
  exact ⟨e, List.mem_of_find?_eq_some he, beq_iff_eq.1 haddr, hF⟩

theorem map_address_wanted (r : Registrations) :
    r.wanted.map (·.address) = r.entries.map (·.address) := by
  rw [wanted, List.map_map]
  rfl

/-- With distinct addresses every entry is found under its own. -/
theorem field?_address (hn : (r.wanted.map (·.address)).Nodup) {e : Registration}
    (he : e ∈ r.entries) : r.field? e.address = e.field? := by
  rw [map_address_wanted] at hn
  rw [field?]
  cases hfind : r.entries.find? (·.address == e.address) with
  | none => exact absurd (beq_self_eq_true e.address) (List.find?_eq_none.1 hfind e he)
  | some q =>
    have haddr := List.find?_some hfind
    have hmem := List.mem_of_find?_eq_some hfind
    have hq := List.inj_on_of_nodup_map hn hmem he (beq_iff_eq.1 haddr)
    rw [hq]
    rfl

section Placed

variable {μ : Type} [Master μ]

theorem Placed.bit_lt (hμ : Master.Orderly μ) {entries : List Registration}
    (h : Placed μ entries) {e : Registration} (he : e ∈ entries) {F : Field}
    (hF : e.field? = some F) : F.offset.bit < 8 := by
  obtain ⟨o, ho, m, m', hl⟩ := h e he
  rw [Registration.field?, ho, Option.map_some, Option.some_inj] at hF
  rw [← hF]
  exact hμ.bit_lt _ _ _ _ _ hl

/-- The field of an entry by a reference to it. -/
theorem field?_of_lists (hn : (r.wanted.map (·.address)).Nodup) (hp : Placed μ r.entries)
    {ref : RegRef} {e : Registration} (h : r.Lists ref e) :
    ∃ o, r.offset? ref = some o ∧ r.field? e.address = some ⟨o, e.width⟩ := by
  rw [Lists, wanted, List.getElem?_map, Option.map_eq_some_iff] at h
  obtain ⟨q, hq, rfl⟩ := h
  have hmem := List.mem_of_getElem? hq
  obtain ⟨o, ho, -⟩ := hp q hmem
  refine ⟨o, ?_, ?_⟩
  · rw [offset?, get?, hq]
    exact ho
  · rw [Registration.address_unplaced, field?_address hn hmem, Registration.field?, ho]
    rfl

end Placed

end Registrations

end ServoBus
