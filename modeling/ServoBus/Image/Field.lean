import ServoBus.Image.Bytes
import ServoBus.Object

/-!
# Fields of the process image

A field is a run of 1 to 32 bits that starts at any bit of the image. Whoever uses
a field never has to ask whether the image is long enough: a field that does not
fit reads as zero and is not written.

Both directions work on the value of the whole image. Reading drops the bits below
the field and those above it, and writing puts three parts together again: what is
below, the new bits, and what is above.
-/

namespace ServoBus

structure Field where
  offset : Offset
  width : Nat
deriving DecidableEq, Repr

/-- The number with `width` bits from position `pos` on replaced by those of `v`. -/
def splice (n pos width v : Nat) : Nat :=
  n % Nat.pow 2 pos +
    Nat.pow 2 pos * (v % Nat.pow 2 width + Nat.pow 2 width * (n / Nat.pow 2 (pos + width)))

/-- Bits below and above the replaced ones stay as they are. -/
theorem testBit_splice (n pos width v i : Nat) :
    (splice n pos width v).testBit i =
      if i < pos then n.testBit i
      else if i < pos + width then v.testBit (i - pos)
      else n.testBit i := by
  have hlow : n % 2 ^ pos < 2 ^ pos := Nat.mod_lt _ (Nat.pow_pos (by decide))
  have hmid : v % 2 ^ width < 2 ^ width := Nat.mod_lt _ (Nat.pow_pos (by decide))
  simp only [splice, Nat.pow_eq]
  rw [Nat.add_comm, Nat.testBit_two_pow_mul_add _ hlow]
  split
  · next h => simp [Nat.testBit_mod_two_pow, h]
  · next h =>
    rw [Nat.add_comm, Nat.testBit_two_pow_mul_add _ hmid]
    by_cases hw : i < pos + width
    · have hi : i - pos < width := by omega
      simp [hi, hw, Nat.testBit_mod_two_pow]
    · have hi : ¬ i - pos < width := by omega
      have he : i - pos - width + (pos + width) = i := by omega
      rw [if_neg hi, if_neg hw, Nat.testBit_div_two_pow, he]

/-- A number stays below a power of two if the replaced bits are below it. -/
theorem splice_lt {n pos width size : Nat} (v : Nat) (hn : n < Nat.pow 2 size)
    (hs : pos + width ≤ size) : splice n pos width v < Nat.pow 2 size := by
  apply Nat.lt_pow_two_of_testBit
  intro i hi
  have hp : ¬ i < pos := by omega
  have hw : ¬ i < pos + width := by omega
  rw [testBit_splice, if_neg hp, if_neg hw]
  exact Nat.testBit_lt_two_pow (Nat.lt_of_lt_of_le hn (Nat.pow_le_pow_right (by decide) hi))

namespace Field

/-- The number of the byte behind the field. -/
def stop (f : Field) : Nat := f.offset.byte + (f.offset.bit + f.width + 7) / 8

/-- The field can be read and written in an image of this length. -/
def Fits (f : Field) (length : Nat) : Prop :=
  0 < f.width ∧ f.width ≤ 32 ∧ f.offset.bit < 8 ∧ f.stop ≤ length

instance (f : Field) (length : Nat) : Decidable (f.Fits length) :=
  inferInstanceAs (Decidable (_ ∧ _))

/-- The bits of the field as a number without sign. -/
def raw (f : Field) (image : Bytes) : Nat :=
  if f.Fits image.length then image.value / Nat.pow 2 f.offset.position % Nat.pow 2 f.width else 0

/-- The value of the field, in two's complement if it is signed. -/
def read (f : Field) (signed : Bool) (image : Bytes) : Int :=
  if signed then Int.bmod (f.raw image) (Nat.pow 2 f.width) else f.raw image

/-- Puts the low bits of a value into the field. -/
def write (f : Field) (v : Int) (image : Bytes) : Bytes :=
  if f.Fits image.length then
    Bytes.ofValue image.length
      (splice image.value f.offset.position f.width (lowBits f.width v))
  else image

@[simp] theorem length_write (f : Field) (v : Int) (image : Bytes) :
    (f.write v image).length = image.length := by
  unfold write
  split <;> simp

theorem raw_of_not_fits {f : Field} {image : Bytes} (h : ¬ f.Fits image.length) :
    f.raw image = 0 := if_neg h

theorem read_of_not_fits {f : Field} {image : Bytes} (signed : Bool)
    (h : ¬ f.Fits image.length) : f.read signed image = 0 := by
  cases signed <;> simp [read, raw_of_not_fits h]

theorem write_of_not_fits {f : Field} {image : Bytes} (v : Int) (h : ¬ f.Fits image.length) :
    f.write v image = image := if_neg h

theorem raw_lt (f : Field) (image : Bytes) : f.raw image < Nat.pow 2 f.width := by
  unfold raw
  split
  · exact Nat.mod_lt _ (Nat.pow_pos (by decide))
  · exact Nat.pow_pos (by decide)

theorem position_add_width_le {f : Field} {length : Nat} (h : f.Fits length) :
    f.offset.position + f.width ≤ 8 * length := by
  obtain ⟨-, -, -, hs⟩ := h
  simp only [stop, Offset.position] at *
  omega

/-- Two fields share no bit. -/
def Disjoint (f g : Field) : Prop :=
  f.offset.position + f.width ≤ g.offset.position ∨
    g.offset.position + g.width ≤ f.offset.position

instance (f g : Field) : Decidable (f.Disjoint g) := inferInstanceAs (Decidable (_ ∨ _))

theorem testBit_raw {f : Field} {image : Bytes} (h : f.Fits image.length) (i : Nat) :
    (f.raw image).testBit i =
      (decide (i < f.width) && image.value.testBit (f.offset.position + i)) := by
  rw [raw, if_pos h]
  simp only [Nat.pow_eq]
  rw [Nat.testBit_mod_two_pow, Nat.testBit_div_two_pow, Nat.add_comm i]

theorem value_write {f : Field} {image : Bytes} (v : Int) (h : f.Fits image.length) :
    (f.write v image).value =
      splice image.value f.offset.position f.width (lowBits f.width v) := by
  have hp : Nat.pow 256 image.length = Nat.pow 2 (8 * image.length) := (Nat.pow_mul 2 8 _).symm
  have hn := Bytes.value_lt image
  rw [hp] at hn
  rw [write, if_pos h, Bytes.value_ofValue, Nat.mod_eq_of_lt]
  rw [hp]
  exact splice_lt (lowBits f.width v) hn (position_add_width_le h)

/-- Writing a field changes its own bits and no others. -/
theorem testBit_write {f : Field} {image : Bytes} (v : Int) (h : f.Fits image.length)
    (i : Nat) :
    (f.write v image).value.testBit i =
      if f.offset.position ≤ i ∧ i < f.offset.position + f.width then
        (lowBits f.width v).testBit (i - f.offset.position)
      else image.value.testBit i := by
  rw [value_write v h, testBit_splice]
  by_cases hl : i < f.offset.position
  · rw [if_pos hl, if_neg (by omega)]
  · rw [if_neg hl]
    by_cases hw : i < f.offset.position + f.width
    · rw [if_pos hw, if_pos (by omega)]
    · rw [if_neg hw, if_neg (by omega)]

/-- What was written is read back. -/
theorem raw_write {f : Field} {image : Bytes} (v : Int) (h : f.Fits image.length) :
    f.raw (f.write v image) = lowBits f.width v := by
  have hf : f.Fits (f.write v image).length := by rwa [length_write]
  apply Nat.eq_of_testBit_eq
  intro i
  rw [testBit_raw hf, testBit_write v h]
  by_cases hi : i < f.width
  · rw [if_pos (by omega)]
    simp [hi]
  · have hb := lowBits_lt f.width v
    have ht : (lowBits f.width v).testBit i = false :=
      Nat.testBit_lt_two_pow (Nat.lt_of_lt_of_le hb (Nat.pow_le_pow_right (by decide) (by omega)))
    simp [hi, ht]

/-- Writing a field is not seen by a field that shares no bit with it. -/
theorem raw_write_of_disjoint {f g : Field} {image : Bytes} (v : Int) (hd : f.Disjoint g) :
    g.raw (f.write v image) = g.raw image := by
  by_cases hf : f.Fits image.length
  · by_cases hg : g.Fits image.length
    · have hg' : g.Fits (f.write v image).length := by rwa [length_write]
      apply Nat.eq_of_testBit_eq
      intro i
      rw [testBit_raw hg', testBit_raw hg, testBit_write v hf]
      by_cases hi : i < g.width
      · rw [if_neg]
        simp only [Disjoint] at hd
        omega
      · simp [hi]
    · have hg' : ¬ g.Fits (f.write v image).length := by rwa [length_write]
      rw [raw_of_not_fits hg, raw_of_not_fits hg']
  · rw [write_of_not_fits v hf]

end Field

/-- The field that holds a single bit. -/
def bitField (o : Offset) : Field := ⟨o, 1⟩

def readBit (o : Offset) (image : Bytes) : Bool := (bitField o).raw image != 0

def writeBit (o : Offset) (on : Bool) (image : Bytes) : Bytes :=
  (bitField o).write (if on then 1 else 0) image

@[simp] theorem length_writeBit (o : Offset) (on : Bool) (image : Bytes) :
    (writeBit o on image).length = image.length := Field.length_write ..

end ServoBus
