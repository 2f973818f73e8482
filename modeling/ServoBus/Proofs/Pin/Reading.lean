import ServoBus.Feature.Basic
import ServoBus.Image.Field
import ServoBus.Proofs.Pin.Table

/-!
# Pins that are set one after the other

The input half of a cycle sets one pin of a slave after the other. As long as none is set twice,
each of them holds its value at the end, and the pins besides are what they were. A value that
fits into the type of its pin is not changed on the way.
-/

namespace ServoBus

namespace Pin

/-- A bit is put into a pin as one or zero. -/
theorem put_bit (p : Pin) (on : Bool) : p.put (.bit on) = p.putRaw (if on then 1 else 0) := by
  obtain ⟨name, direction, value⟩ := p
  cases value <;> cases on <;> rfl

/-- A value of a field survives in a pin of the type that goes with the sign of the field. -/
theorem Value.raw_ofRaw_read (f : Field) (signed : Bool) (image : Bytes) :
    (ofRaw (Format.pinKind ⟨f.width, signed⟩) (f.read signed image)).raw = f.read signed image := by
  by_cases hf : f.Fits image.length
  · have hlt := f.raw_lt image
    have hle : Nat.pow 2 f.width ≤ 2 ^ 32 := Nat.pow_le_pow_right (by decide) hf.2.1
    cases signed with
    | false =>
      simp only [Format.pinKind, Field.read, ofRaw, raw, Bool.false_eq_true, if_false]
      have hraw : f.raw image < 2 ^ 32 := Nat.lt_of_lt_of_le hlt hle
      rw [UInt32.ofInt, Int.emod_eq_of_lt (Int.natCast_nonneg _) (by omega), Int.toNat_natCast,
        UInt32.toNat_ofNat', Nat.mod_eq_of_lt hraw]
    | true =>
      simp only [Format.pinKind, Field.read, ofRaw, raw, if_true]
      have hpos : 0 < Nat.pow 2 f.width := Nat.pow_pos (by decide)
      have hlow := @Int.le_bmod (f.raw image) _ hpos
      have hhigh := @Int.bmod_lt (f.raw image) _ hpos
      have hsize : Int32.size = 2 ^ 32 := rfl
      rw [Int32.toInt_ofInt]
      apply Int.bmod_eq_of_le
      · omega
      · omega
  · rw [Field.read_of_not_fits signed hf]
    cases signed <;> rfl

end Pin

/-- A pin and the raw value that it is set to. -/
structure Reading where
  pin : PinRef
  raw : Int
deriving DecidableEq, Repr

namespace Reading

def apply (t : PinTable) (a : Reading) : PinTable := t.putRaw a.pin a.raw

/-- Sets the pins one after the other. -/
def applyAll (as : List Reading) (t : PinTable) : PinTable := as.foldl apply t

theorem applyAll_append (as bs : List Reading) (t : PinTable) :
    applyAll (as ++ bs) t = applyAll bs (applyAll as t) := List.foldl_append

theorem pin?_apply (t : PinTable) (a : Reading) (ref : PinRef) :
    (apply t a).pin? ref =
      if a.pin = ref then (t.pin? ref).map (·.putRaw a.raw) else t.pin? ref :=
  t.pin?_modify a.pin ref _

/-- A pin that is not set is what it was. -/
theorem pin?_applyAll_of_not_mem {as : List Reading} {ref : PinRef}
    (h : ref ∉ as.map (·.pin)) (t : PinTable) : (applyAll as t).pin? ref = t.pin? ref := by
  induction as generalizing t with
  | nil => rfl
  | cons a as ih =>
    rw [List.map_cons, List.mem_cons, not_or] at h
    have hfirst : (apply t a).pin? ref = t.pin? ref := by
      rw [pin?_apply, if_neg (Ne.symm h.1)]
    exact (ih h.2 (apply t a)).trans hfirst

/-- A pin that is set once holds its value. -/
theorem pin?_applyAll {as : List Reading} (hn : (as.map (·.pin)).Nodup) {a : Reading}
    (ha : a ∈ as) (t : PinTable) :
    (applyAll as t).pin? a.pin = (t.pin? a.pin).map (·.putRaw a.raw) := by
  induction as generalizing t with
  | nil => cases ha
  | cons b as ih =>
    rw [List.map_cons, List.nodup_cons] at hn
    rcases List.mem_cons.1 ha with rfl | ha
    · have hlast := pin?_applyAll_of_not_mem hn.1 (apply t a)
      rw [pin?_apply, if_pos rfl] at hlast
      exact hlast
    · have hne : b.pin ≠ a.pin := by
        intro heq
        rw [heq] at hn
        exact hn.1 (List.mem_map_of_mem ha)
      have hfirst : (apply t b).pin? a.pin = t.pin? a.pin := by rw [pin?_apply, if_neg hne]
      have hrest := ih hn.2 ha (apply t b)
      rw [hfirst] at hrest
      exact hrest

end Reading

end ServoBus
