import ServoBus.Proofs.Action.Success
import ServoBus.Registration.Basic

/-!
# Registering and locating entries

Entries are only ever added at the end of a list, one by one or a list at once. Asking for
their offsets changes nothing else about them. When all of them were given, every entry has
one, and the check for overlaps has passed.
-/

namespace ServoBus

/-- The entry as it was registered, without its place. -/
def Registration.unplaced (r : Registration) : Registration := { r with offset? := none }

@[simp] theorem Registration.address_unplaced (r : Registration) :
    r.unplaced.address = r.address := rfl

@[simp] theorem Registration.width_unplaced (r : Registration) :
    r.unplaced.width = r.width := rfl

namespace Registrations

theorem result_register (slave : Position) (address : ObjectAddress) (width : Nat)
    (r : Registrations) :
    (register slave address width).result r =
      if r.capacity ≤ r.size then (.error (.registrationsFull r.device r.size r.capacity), r)
      else (.ok ⟨r.size⟩, r.extend [⟨slave, address, width, none⟩]) := by
  rw [register, Action.result_bind]
  simp only [Action.result_get]
  split <;> rfl

theorem result_append (other r : Registrations) :
    (append other).result r =
      if r.capacity < r.size + other.size then
        (.error (.registrationsFull r.device r.size r.capacity), r)
      else (.ok ⟨r.size⟩, r.extend other.entries) := by
  rw [append, Action.result_bind]
  simp only [Action.result_get]
  split <;> rfl

theorem result_register_eq_ok_iff {slave : Position} {address : ObjectAddress} {width : Nat}
    {r r' : Registrations} {ref : RegRef} :
    (register slave address width).result r = (.ok ref, r') ↔
      r.size < r.capacity ∧ ref = ⟨r.size⟩ ∧ r' = r.extend [⟨slave, address, width, none⟩] := by
  rw [result_register]
  split
  · next h => simp [Nat.not_lt.2 h]
  · next h => simp [Nat.not_le.1 h, eq_comm]

theorem result_append_eq_ok_iff {other r r' : Registrations} {start : RegRef} :
    (append other).result r = (.ok start, r') ↔
      r.size + other.size ≤ r.capacity ∧ start = ⟨r.size⟩ ∧ r' = r.extend other.entries := by
  rw [result_append]
  split
  · next h => simp [Nat.not_le.2 h]
  · next h => simp [Nat.not_lt.1 h, eq_comm]

/-- The entries as they were registered. -/
def wanted (r : Registrations) : List Registration := r.entries.map (·.unplaced)

/-- A reference denotes an entry, wherever its place is. -/
def Lists (r : Registrations) (ref : RegRef) (e : Registration) : Prop :=
  r.wanted[ref.index]? = some e

theorem lists_iff {r : Registrations} {ref : RegRef} {e : Registration} :
    r.Lists ref e ↔ (r.get? ref).map (·.unplaced) = some e := by
  rw [Lists, wanted, List.getElem?_map]
  rfl

theorem lists_of_get? {r : Registrations} {ref : RegRef} {e : Registration}
    (h : r.get? ref = some e) : r.Lists ref e.unplaced := by
  rw [lists_iff, h]
  rfl

theorem Lists.mono {r r' : Registrations} {ref : RegRef} {e : Registration}
    (h : r.Lists ref e) (hr : r.wanted <+: r'.wanted) : r'.Lists ref e := by
  obtain ⟨rest, hrest⟩ := hr
  have hlt := (List.getElem?_eq_some_iff.1 h).1
  rw [Lists, ← hrest, List.getElem?_append_left hlt]
  exact h

theorem wanted_extend (r : Registrations) (entries : List Registration) :
    (r.extend entries).wanted = r.wanted ++ entries.map (·.unplaced) := List.map_append

section Locate

variable {μ : Type} [Master μ]

/-- All entries are placed, each by an answer of the master. -/
def Placed (μ : Type) [Master μ] (entries : List Registration) : Prop :=
  ∀ r ∈ entries, ∃ o, r.offset? = some o ∧
    ∃ m m' : μ, Master.locateEntry r.slave r.address m = (.ok o, m')

theorem map_unplaced_locateFrom (device : String) (rs : List Registration) (m : μ) :
    (locateFrom device rs m).value.1.map (·.unplaced) = rs.map (·.unplaced) := by
  induction rs generalizing m with
  | nil => rfl
  | cons r rs ih =>
    rw [locateFrom]
    rcases Master.locateEntry r.slave r.address m with ⟨e | o, m'⟩
    · rfl
    · simp only [Logged.value_bind, Logged.value_pure, List.map_cons, ih m']
      rfl

/-- Without a refusal every entry is placed. -/
theorem placed_locateFrom {device : String} {rs : List Registration} {m : μ}
    (h : (locateFrom device rs m).value.2.1 = .ok ()) :
    Placed μ (locateFrom device rs m).value.1 := by
  induction rs generalizing m with
  | nil =>
    intro r hr
    cases hr
  | cons r rs ih =>
    rw [locateFrom] at h ⊢
    rcases hl : Master.locateEntry r.slave r.address m with ⟨e | o, m'⟩
    · rw [hl] at h
      cases h
    · rw [hl] at h
      simp only [Logged.value_bind, Logged.value_pure] at h ⊢
      intro q hq
      rcases List.mem_cons.1 hq with rfl | hq
      · exact ⟨o, rfl, m, m', hl⟩
      · exact ih h q hq

/-- Asking for offsets leaves the name of the device and the capacity, whatever is answered. -/
theorem cleared_locate (r : Registrations) (m : μ) :
    (locate.result (r, m)).2.1.cleared = r.cleared := by
  rw [locate]
  simp only [Action.result_bind, Action.result_get, Action.result_lift, Action.result_set]
  rcases (locateFrom r.device r.entries m).value with ⟨rs, e | ⟨⟩, m'⟩ <;> rfl

/-- The entries stay what they were registered for, even those that were refused an offset. -/
theorem wanted_locate (r : Registrations) (m : μ) :
    (locate.result (r, m)).2.1.wanted = r.wanted := by
  have hmap := map_unplaced_locateFrom r.device r.entries m
  rw [locate]
  simp only [Action.result_bind, Action.result_get, Action.result_lift, Action.result_set]
  generalize (locateFrom r.device r.entries m).value = found at hmap ⊢
  rcases found with ⟨rs, e | ⟨⟩, m'⟩
  · exact hmap
  · exact hmap

theorem of_result_locate {r r' : Registrations} {m m' : μ}
    (h : locate.result (r, m) = (.ok (), (r', m'))) :
    r'.wanted = r.wanted ∧ Placed μ r'.entries ∧
      (checkOverlap r'.entries).outcome = .ok () := by
  have hmap := map_unplaced_locateFrom r.device r.entries m
  have hplaced := @placed_locateFrom μ _ r.device r.entries m
  rw [locate] at h
  simp only [Action.result_bind, Action.result_get, Action.result_lift, Action.result_set] at h
  generalize (locateFrom r.device r.entries m).value = found at h hmap hplaced
  rcases found with ⟨rs, e | ⟨⟩, m₁⟩
  · cases h
  · rw [Action.result_ofChecked, Prod.mk.injEq] at h
    obtain ⟨hcheck, hstate⟩ := h
    cases hstate
    exact ⟨hmap, hplaced rfl, hcheck⟩

end Locate

end Registrations

end ServoBus
