import ServoBus.Count
import ServoBus.Image.Field

/-!
# Offsets and fields in machine words

The number of a bit in the process image is a count, and so is the number of the byte behind a
field. Where one of them does not fit, what needed it breaks, whether the image reaches that far or
not. A field that cannot be one, because of its width or its bit, has no such byte.
-/

namespace ServoBus

namespace Offset

/-- The number of bits before the offset. -/
def position? (o : Offset) : Option USize := do
  let bits ← count? (8 * o.byte)
  count? (bits.toNat + o.bit)

/-- The offset of the bit that stands `n` bits further. -/
def shift? (o : Offset) (n : Nat) : Option Offset := do
  let start ← o.position?
  let bit ← count? (start.toNat + n)
  some ⟨bit.toNat / 8, bit.toNat % 8⟩

theorem position?_eq {o : Offset} (h : o.position < USize.size) :
    o.position? = some (USize.ofNat o.position) := by
  have hbits : 8 * o.byte < USize.size := Nat.lt_of_le_of_lt (Nat.le_add_right ..) h
  rw [position?, count?_eq hbits, Option.bind_eq_bind, Option.bind_some,
    USize.toNat_ofNat_of_lt' hbits]
  exact count?_eq h

theorem position?_eq_none {o : Offset} (h : USize.size ≤ o.position) : o.position? = none := by
  rw [position?, Option.bind_eq_bind]
  by_cases hbits : 8 * o.byte < USize.size
  · rw [count?_eq hbits, Option.bind_some, USize.toNat_ofNat_of_lt' hbits]
    exact count?_eq_none h
  · rw [count?_eq_none (Nat.not_lt.1 hbits), Option.bind_none]

theorem shift?_eq {o : Offset} {n : Nat} (h : o.position + n < USize.size) :
    o.shift? n = some (o.shift n) := by
  have hstart : o.position < USize.size := Nat.lt_of_le_of_lt (Nat.le_add_right ..) h
  simp only [shift?, position?_eq hstart, Option.bind_eq_bind, Option.bind_some,
    USize.toNat_ofNat_of_lt' hstart, count?_eq h, USize.toNat_ofNat_of_lt' h]
  rfl

theorem shift?_eq_none {o : Offset} {n : Nat} (h : USize.size ≤ o.position + n) :
    o.shift? n = none := by
  rw [shift?, Option.bind_eq_bind]
  by_cases hstart : o.position < USize.size
  · rw [position?_eq hstart, Option.bind_some, USize.toNat_ofNat_of_lt' hstart, count?_eq_none h]
    rfl
  · rw [position?_eq_none (Nat.not_lt.1 hstart), Option.bind_none]

theorem yields_shift (o : Offset) (n : Nat) :
    Yields (o.position + n < USize.size) (o.shift? n) (o.shift n) :=
  yields_of_eq_none shift?_eq fun h => shift?_eq_none (Nat.not_lt.1 h)

end Offset

namespace Field

/-- Finds the byte behind the field, unless there is none. -/
def span? (f : Field) : Option Unit :=
  if 0 < f.width ∧ f.width ≤ 32 ∧ f.offset.bit < 8 then (count? f.stop).map fun _ => ()
  else some ()

/-- The value of the field. -/
def read? (f : Field) (signed : Bool) (image : Bytes) : Option Int := do
  f.span?
  some (f.read signed image)

/-- Puts the low bits of a value into the field. -/
def write? (f : Field) (v : Int) (image : Bytes) : Option Bytes := do
  f.span?
  some (f.write v image)

/-- The byte behind a field is far before the last one whose bits can be counted. -/
theorem yields_span (f : Field) : Yields (f.offset.position < USize.size) f.span? () where
  eq _ _ := rfl
  safe h := by
    have hsize : 4294967296 ≤ USize.size := USize.le_size
    unfold span?
    split
    · next hproper =>
      have hstop : f.stop < USize.size := by
        simp only [stop, Offset.position] at *
        omega
      rw [count?_eq hstop, Option.map_some]
    · rfl

theorem yields_read (f : Field) (signed : Bool) (image : Bytes) :
    Yields (f.offset.position < USize.size) (f.read? signed image) (f.read signed image) :=
  f.yields_span.bind fun _ => yields_some _

theorem yields_write (f : Field) (v : Int) (image : Bytes) :
    Yields (f.offset.position < USize.size) (f.write? v image) (f.write v image) :=
  f.yields_span.bind fun _ => yields_some _

end Field

def readBit? (o : Offset) (image : Bytes) : Option Bool := do
  (bitField o).span?
  some (readBit o image)

def writeBit? (o : Offset) (on : Bool) (image : Bytes) : Option Bytes := do
  (bitField o).span?
  some (writeBit o on image)

theorem yields_readBit (o : Offset) (image : Bytes) :
    Yields (o.position < USize.size) (readBit? o image) (readBit o image) :=
  (bitField o).yields_span.bind fun _ => yields_some _

theorem yields_writeBit (o : Offset) (on : Bool) (image : Bytes) :
    Yields (o.position < USize.size) (writeBit? o on image) (writeBit o on image) :=
  (bitField o).yields_span.bind fun _ => yields_some _

end ServoBus
