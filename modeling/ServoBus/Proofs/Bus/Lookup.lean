import ServoBus.Bus
import ServoBus.Proofs.Pin.Table

/-!
# The pin that a name leads to

A bus looks for a name from its first slave on. So a pin is reached by its full name exactly if no
slave that comes before its own has a pin of this name.
-/

namespace ServoBus

namespace Pin

theorem Value.ofRaw_one_ne_zero (k : Kind) : ofRaw k 1 ≠ zero k := by
  cases k <;> decide +kernel

/-- Every pin can be given another value than it has. -/
theorem exists_put_ne (p : Pin) : ∃ v, p.put v ≠ p := by
  have hvalue {v : Value} (hkind : v.kind = p.kind) (h : p.put v = p) : p.value = v := by
    have hput := congrArg Pin.value h
    rw [put, ← hkind, Value.convert_self] at hput
    exact hput.symm
  by_cases hzero : p.value = .zero p.kind
  · refine ⟨.ofRaw p.kind 1, fun h => Value.ofRaw_one_ne_zero p.kind ?_⟩
    rw [← hvalue (Value.kind_ofRaw ..) h, hzero]
  · exact ⟨.zero p.kind, fun h => hzero (hvalue (Value.kind_zero ..) h)⟩

end Pin

/-- Some value changes the table where it is put. -/
theorem PinTable.exists_put_ne {t : PinTable} {ref : PinRef} {p : Pin}
    (h : t.pin? ref = some p) : ∃ v, t.put ref v ≠ t := by
  obtain ⟨v, hv⟩ := p.exists_put_ne
  refine ⟨v, fun heq => hv ?_⟩
  have hput := t.pin?_modify ref ref (·.put v)
  rw [if_pos rfl, h, Option.map_some, ← put, heq, h] at hput
  exact (Option.some.inj hput).symm

namespace Bus

section Change

variable {p : Slave → Bool} {missing : Fault} {f : PinTable → Except Fault PinTable}
  {slaves : List Slave} {n : Nat} {s : Slave}

/-- The first slave that the test holds of is changed, and no other one. -/
theorem changePins_eq (hs : slaves[n]? = some s) (hp : p s = true)
    (hfirst : ∀ t ∈ slaves.take n, p t = false) :
    changePins p missing f slaves = (fun pins => slaves.set n { s with pins }) <$> f s.pins := by
  induction slaves generalizing n with
  | nil => cases hs
  | cons t rest ih =>
    cases n with
    | zero =>
      cases hs
      rw [changePins, if_pos hp]
      rfl
    | succ n =>
      rw [List.take_succ_cons, List.forall_mem_cons] at hfirst
      rw [changePins, hfirst.1, if_neg Bool.false_ne_true, ih hs hfirst.2]
      cases f s.pins <;> rfl

/-- A slave behind one that the test holds of stays as it is. -/
theorem getElem?_changePins (hp : ∃ t ∈ slaves.take n, p t = true) {slaves' : List Slave}
    (h : changePins p missing f slaves = .ok slaves') : slaves'[n]? = slaves[n]? := by
  induction slaves generalizing n slaves' with
  | nil => cases h
  | cons t rest ih =>
    cases n with
    | zero =>
      obtain ⟨t, ht, -⟩ := hp
      cases ht
    | succ n =>
      rw [List.take_succ_cons] at hp
      rw [changePins] at h
      split at h
      · obtain ⟨pins, -, rfl⟩ := except_map_eq_ok_iff.1 h
        rfl
      · next hnot =>
        obtain ⟨rest', hrest, rfl⟩ := except_map_eq_ok_iff.1 h
        obtain ⟨u, hu, hpu⟩ := hp
        rcases List.mem_cons.1 hu with rfl | hu
        · exact absurd hpu hnot
        · exact ih ⟨u, hu, hpu⟩ hrest

theorem findSome?_value? {name : String} {v : Pin.Value} (hs : slaves[n]? = some s)
    (hv : s.pins.value? name = some v) (hfirst : ∀ t ∈ slaves.take n, name ∉ t.pins.names) :
    slaves.findSome? (·.pins.value? name) = some v := by
  induction slaves generalizing n with
  | nil => cases hs
  | cons t rest ih =>
    cases n with
    | zero =>
      cases hs
      rw [List.findSome?_cons, hv]
    | succ n =>
      rw [List.take_succ_cons, List.forall_mem_cons] at hfirst
      rw [List.findSome?_cons, PinTable.value?_of_not_mem hfirst.1]
      exact ih hs hfirst.2

end Change

variable {μ : Type} {b : Bus μ} {n : Nat} {ref : PinRef}

/-- Under the full name of a pin the bus gives the value of this pin, and a value that is set by
this name is put into this pin, and nothing else changes. -/
def Addresses (b : Bus μ) (n : Nat) (ref : PinRef) : Prop :=
  ∀ s ∈ b.slaves[n]?, ∀ p ∈ s.pins.pin? ref,
    b.pin? p.name = some p.value ∧
      ∀ v, b.setPin p.name v =
        .ok { b with slaves := b.slaves.set n { s with pins := s.pins.put ref v } }

/-- A pin is reached exactly if its name is not found earlier. -/
theorem addresses_iff (hn : ∀ s ∈ b.slaves, s.pins.names.Nodup) :
    b.Addresses n ref ↔ ∀ s ∈ b.slaves[n]?, ∀ p ∈ s.pins.pin? ref,
      ∀ t ∈ b.slaves.take n, p.name ∉ t.pins.names := by
  constructor
  · intro haddr s hs p hp t ht hown
    obtain ⟨v, hv⟩ := PinTable.exists_put_ne hp
    obtain ⟨slaves, hchange, heq⟩ := except_map_eq_ok_iff.1 ((haddr s hs p hp).2 v)
    have hslaves : slaves = b.slaves.set n { s with pins := s.pins.put ref v } :=
      congrArg Bus.slaves heq
    -- A slave in front is changed instead of this one.
    have hkeep := getElem?_changePins ⟨t, ht, PinTable.find?_isSome_iff.2 hown⟩ hchange
    rw [Option.mem_def] at hs
    rw [hslaves, List.getElem?_set_self (List.getElem?_eq_some_iff.1 hs).1, hs] at hkeep
    exact hv (congrArg Slave.pins (Option.some.inj hkeep))
  · intro hfree s hs p hp
    have hfirst := hfree s hs p hp
    have hnodup := hn s (List.mem_of_getElem? hs)
    have hfind := PinTable.find?_of_pin? hnodup hp
    refine ⟨findSome?_value? hs (PinTable.value?_of_pin? hnodup hp) hfirst, fun v => ?_⟩
    have hput : s.pins.putNamed p.name v = .ok (s.pins.put ref v) := by
      rw [PinTable.putNamed, hfind]
    have hbefore : ∀ t ∈ b.slaves.take n, (t.pins.find? p.name).isSome = false := fun t ht =>
      Bool.eq_false_iff.2 (mt PinTable.find?_isSome_iff.1 (hfirst t ht))
    rw [setPin, changePins_eq hs (by rw [hfind]; rfl) hbefore, hput]
    rfl

end Bus

end ServoBus
