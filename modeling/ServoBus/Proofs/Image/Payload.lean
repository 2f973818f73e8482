import ServoBus.Proofs.Image.Codec

/-!
# Payloads beside fields

A value goes to a slave in two ways: as the payload of a request, and in a field of the process
image. A field at the start of bytes that hold it has room for the same bits. But a payload is made
of whole bytes of the value, so above the width it goes on with the bits of the value, where the
field leaves the image as it is. The two are the same bytes if the value has no bits there, and for
a width of whole bytes there is nothing above it.
-/

namespace ServoBus

namespace Bytes

theorem bit_ofValue (length n k : Nat) :
    (ofValue length n).bit k = (decide (k < 8 * length) && n.testBit k) := by
  have hpow : 256 ^ length = 2 ^ (8 * length) := (Nat.pow_mul 2 8 length).symm
  rw [← testBit_value, value_ofValue, Nat.pow_eq, hpow, Nat.testBit_mod_two_pow]

theorem bit_take (bs : Bytes) (length k : Nat) :
    bit (bs.take length) k = (decide (k < 8 * length) && bs.bit k) := by
  rw [bit, List.getElem?_take, bit]
  by_cases h : k / 8 < length
  · have hk : k < 8 * length := by omega
    simp [h, hk]
  · have hk : ¬ k < 8 * length := by omega
    simp [h, hk]

theorem bit_replicate_zero (length k : Nat) : bit (List.replicate length 0) k = false := by
  rw [bit, List.getElem?_replicate]
  split <;> exact Nat.zero_testBit _

end Bytes

/-- The whole bytes that a width takes up. -/
def bytesFor (width : Nat) : Nat := (width + 7) / 8

/-- As many bytes as a width takes up, without a bit that is set. -/
def blankFor (width : Nat) : Bytes := List.replicate (bytesFor width) 0

@[simp] theorem length_blankFor (width : Nat) : (blankFor width).length = bytesFor width :=
  List.length_replicate

/-- The field of a width at the start of the image. -/
def Field.leading (width : Nat) : Field := ⟨⟨0, 0⟩, width⟩

theorem Field.covers_leading_iff {width k : Nat} : (leading width).Covers k ↔ k < width := by
  simp only [Covers, leading, Offset.position]
  omega

/-- A payload is cut from the eight bytes of a word. -/
theorem payload_eq_take (width : Nat) (v : Int) :
    payload width v = (Bytes.ofWord 8 (BitVec.ofInt 64 v)).take (bytesFor width) := by
  refine Bytes.eq_of_bit_eq (by simp [bytesFor]) fun k => ?_
  rw [payload, Bytes.bit_ofValue, testBit_lowBits, Bytes.bit_take, Bytes.bit_ofWord]
  by_cases hk : k < 64
  · have hiff : k < 8 * min ((width + 7) / 8) 8 ↔ k < 8 * bytesFor width := by
      simp only [bytesFor]
      omega
    rw [Word.getLsbD_ofInt v hk]
    simp [hk, hiff]
  · simp [hk]

section

variable {width : Nat} (hwidth : width ≤ 32) (v : Int)

include hwidth

theorem length_payload_eq : (payload width v).length = bytesFor width := by
  rw [length_payload]
  simp only [bytesFor]
  omega

/-- A payload has the bits of the value, in all of its bytes. -/
theorem bit_payload (k : Nat) :
    (payload width v).bit k = (decide (k < 8 * bytesFor width) && v.testBit k) := by
  rw [payload_eq_take, Bytes.bit_take, Bytes.bit_ofWord]
  by_cases hk : k < 8 * bytesFor width
  · have hlt : k < 64 := by
      simp only [bytesFor] at hk
      omega
    rw [Word.getLsbD_ofInt v hlt, decide_eq_true (show k < 8 * 8 by omega), Bool.true_and]
  · rw [decide_eq_false hk, Bool.false_and, Bool.false_and]

variable (hpos : 1 ≤ width)

include hpos

theorem Field.fits_leading {length : Nat} (h : bytesFor width ≤ length) :
    (leading width).Fits length := by
  simp only [Fits, stop, leading, bytesFor] at *
  omega

/-- A field at the start of blank bytes has the bits of the value up to its width. -/
theorem bit_write_blank {length : Nat} (h : bytesFor width ≤ length) (k : Nat) :
    ((Field.leading width).write v (List.replicate length 0)).bit k =
      (decide (k < width) && v.testBit k) := by
  have hfits : (Field.leading width).Fits (List.replicate length (0 : UInt8)).length :=
    Field.fits_leading hwidth hpos (by simpa using h)
  rw [Field.bit_write hfits, Bytes.bit_replicate_zero]
  simp only [Field.covers_leading_iff]
  by_cases hk : k < width
  · simp [hk, Field.leading, Offset.position]
  · simp [hk]

/-- The field at the start of a payload holds the low bits of the value. -/
theorem raw_payload : (Field.leading width).raw (payload width v) = lowBits width v := by
  have hlength := length_payload_eq hwidth v
  have hfits : (Field.leading width).Fits (payload width v).length :=
    Field.fits_leading hwidth hpos hlength.ge
  refine Nat.eq_of_testBit_eq fun i => ?_
  rw [Field.testBit_raw_eq hfits, testBit_lowBits, bit_payload hwidth]
  by_cases hi : i < width
  · have hlt : i < 8 * bytesFor width := by
      simp only [bytesFor]
      omega
    simp [hi, hlt, Field.leading, Offset.position]
  · simp [hi, Field.leading]

theorem payload_eq_write_whole :
    payload width v = (Field.leading (8 * bytesFor width)).write v (blankFor width) := by
  have hle : 8 * bytesFor width ≤ 32 := by
    simp only [bytesFor]
    omega
  have hpos' : 1 ≤ 8 * bytesFor width := by
    simp only [bytesFor]
    omega
  have hsame : bytesFor (8 * bytesFor width) ≤ bytesFor width := by
    simp only [bytesFor]
    omega
  refine Bytes.eq_of_bit_eq (by simp [length_payload_eq hwidth]) fun k => ?_
  rw [bit_payload hwidth, blankFor, bit_write_blank hle v hpos' hsame]

theorem payload_eq_write_iff :
    payload width v = (Field.leading width).write v (blankFor width) ↔
      ∀ k, width ≤ k → k < 8 * bytesFor width → v.testBit k = false := by
  have hwrite := bit_write_blank hwidth v hpos (Nat.le_refl (bytesFor width))
  constructor
  · intro h k hlow hhigh
    have hbit := bit_payload hwidth v k
    rw [h, blankFor, hwrite, decide_eq_true hhigh, decide_eq_false (Nat.not_lt.2 hlow),
      Bool.true_and, Bool.false_and] at hbit
    exact hbit.symm
  · intro h
    refine Bytes.eq_of_bit_eq (by simp [length_payload_eq hwidth]) fun k => ?_
    rw [bit_payload hwidth, blankFor, hwrite]
    by_cases hk : k < width
    · have hlt : k < 8 * bytesFor width := by
        simp only [bytesFor]
        omega
      rw [decide_eq_true hk, decide_eq_true hlt]
    · by_cases hhigh : k < 8 * bytesFor width
      · rw [h k (Nat.not_lt.1 hk) hhigh, Bool.and_false, Bool.and_false]
      · rw [decide_eq_false hk, decide_eq_false hhigh]

end

/-- What a payload is, and what it has in common with the field of its width. -/
structure Conveys (width : Nat) (v : Int) : Prop where
  length : (payload width v).length = bytesFor width
  cut : payload width v = (Bytes.ofWord 8 (BitVec.ofInt 64 v)).take (bytesFor width)
  /-- All bits of the bytes are taken from the value, also those above the width. -/
  whole : payload width v = (Field.leading (8 * bytesFor width)).write v (blankFor width)
  agrees : payload width v = (Field.leading width).write v (blankFor width) ↔
    ∀ k, width ≤ k → k < 8 * bytesFor width → v.testBit k = false
  aligned : 8 ∣ width → payload width v = (Field.leading width).write v (blankFor width)
  read : (Field.leading width).read false (payload width v) = v % (2 ^ width : Nat)

theorem conveys_of_le {width : Nat} (hpos : 1 ≤ width) (hwidth : width ≤ 32) (v : Int) :
    Conveys width v where
  length := length_payload_eq hwidth v
  cut := payload_eq_take width v
  whole := payload_eq_write_whole hwidth v hpos
  agrees := payload_eq_write_iff hwidth v hpos
  aligned h := by
    refine (payload_eq_write_iff hwidth v hpos).2 fun k hlow hhigh => ?_
    simp only [bytesFor] at hhigh
    omega
  read := by
    have hfits : (Field.leading width).Fits (blankFor width).length :=
      Field.fits_leading hwidth hpos (by simp)
    have hwritten := Field.read_false_write hfits v
    simp only [Field.read, Bool.false_eq_true, if_false] at hwritten ⊢
    rw [Field.raw_write v hfits] at hwritten
    rw [raw_payload hwidth v hpos]
    exact hwritten

theorem conveys_of_le_twelve :
    1 ≤ 12 ∧ 12 ≤ 32 ∧ payload 12 (-2) = [0xfe, 0xff] ∧
      (Field.leading 12).read false (payload 12 (-2)) = 0xffe :=
  ⟨by decide, by decide, by decide, (conveys_of_le (by decide) (by decide) (-2)).read⟩

/-- Behind a width that ends within a byte, further bits of the value are sent. -/
theorem payload_ne_write :
    payload 4 255 = [0xff] ∧ (Field.leading 4).write 255 (blankFor 4) = [0x0f] ∧
      payload 4 255 ≠ (Field.leading 4).write 255 (blankFor 4) := by
  decide

end ServoBus
