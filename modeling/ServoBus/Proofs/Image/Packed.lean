import ServoBus.Proofs.Image.Bits

/-!
# A field bit by bit

A field may be a row of lines that have nothing to do with each other. Each of them is then read
and written as a field of one bit, which stands some bits behind the start of the row. A bit that is
read this way is that bit of the value of the row, a bit that is written changes nothing else, and
when all bits of a value have been written, in any order, the row has been written as a whole.
-/

namespace ServoBus

namespace Field

variable {f : Field} {image : Bytes} {n : Nat}

/-- Sets bits of the field one after the other, each to that bit of a value. -/
def writeBits (f : Field) (v : Int) (order : List Nat) (image : Bytes) : Bytes :=
  order.foldl (fun image n => writeBit (f.offset.shift n) (v.testBit n) image) image

@[simp] theorem writeBits_nil (f : Field) (v : Int) (image : Bytes) :
    f.writeBits v [] image = image := rfl

theorem writeBits_cons (f : Field) (v : Int) (n : Nat) (order : List Nat) (image : Bytes) :
    f.writeBits v (n :: order) image =
      f.writeBits v order (writeBit (f.offset.shift n) (v.testBit n) image) := rfl

@[simp] theorem length_writeBits (f : Field) (v : Int) (order : List Nat) (image : Bytes) :
    (f.writeBits v order image).length = image.length := by
  induction order generalizing image with
  | nil => rfl
  | cons n order ih => rw [writeBits_cons, ih, length_writeBit]

/-- A bit of a field that fits is in the image. -/
theorem Fits.bitField {length : Nat} (h : f.Fits length) (hn : n < f.width) :
    (bitField (f.offset.shift n)).Fits length := by
  have hle := position_add_width_le h
  rw [fits_bitField_iff]
  omega

theorem covers_bitField_iff {o : Offset} {k : Nat} :
    (bitField (o.shift n)).Covers k ↔ k = o.position + n := by
  simp only [Covers, bitField, Offset.position_shift]
  omega

/-- Writing one bit changes that bit only. -/
theorem bit_writeBit (h : f.Fits image.length) (hn : n < f.width) (on : Bool) (k : Nat) :
    (writeBit (f.offset.shift n) on image).bit k =
      if k = f.offset.position + n then on else image.bit k := by
  rw [writeBit, bit_write (h.bitField hn)]
  simp only [covers_bitField_iff]
  by_cases hk : k = f.offset.position + n
  · rw [if_pos hk, if_pos hk, hk, bitField, Offset.position_shift, Nat.sub_self]
    cases on <;> rfl
  · rw [if_neg hk, if_neg hk]

/-- The bits that are set are those of the value, and the others stay. -/
theorem bit_writeBits (h : f.Fits image.length) (v : Int) {order : List Nat}
    (ho : ∀ n ∈ order, n < f.width) (k : Nat) :
    (f.writeBits v order image).bit k =
      if f.offset.position ≤ k ∧ k - f.offset.position ∈ order
        then v.testBit (k - f.offset.position) else image.bit k := by
  induction order generalizing image with
  | nil => simp
  | cons n order ih =>
    obtain ⟨hn, hrest⟩ := List.forall_mem_cons.1 ho
    have hfits : f.Fits (writeBit (f.offset.shift n) (v.testBit n) image).length := by
      rwa [length_writeBit]
    rw [writeBits_cons, ih hfits hrest, bit_writeBit h hn]
    by_cases hk : k = f.offset.position + n
    · -- a later write of the same bit writes the same
      simp [hk]
    · have hne : f.offset.position ≤ k → k - f.offset.position ≠ n := by omega
      by_cases hle : f.offset.position ≤ k
      · simp [hk, hle, hne hle]
      · simp [hk, hle]

theorem readBit_eq_testBit (h : f.Fits image.length) (hn : n < f.width) :
    readBit (f.offset.shift n) image = (f.read false image).testBit n := by
  have hread : (f.read false image).testBit n = (f.raw image).testBit n := rfl
  have hinside := fits_bitField_iff.1 (h.bitField hn)
  rw [hread, testBit_raw h, readBit_shift, decide_eq_true hinside, decide_eq_true hn]

/-- A bit that is written is that bit of the field, and no other bit of the field changes. -/
theorem testBit_read_writeBit (h : f.Fits image.length) (hn : n < f.width) (on : Bool) (i : Nat) :
    (f.read false (writeBit (f.offset.shift n) on image)).testBit i =
      if i = n then on else (f.read false image).testBit i := by
  have hfits : f.Fits (writeBit (f.offset.shift n) on image).length := by rwa [length_writeBit]
  have hread (image : Bytes) : (f.read false image).testBit i = (f.raw image).testBit i := rfl
  rw [hread, hread, testBit_raw_eq hfits, testBit_raw_eq h, bit_writeBit h hn]
  by_cases hi : i = n
  · simp [hi, hn]
  · simp [hi]

/-- When each bit has been written at least once, the field has been written. -/
theorem writeBits_eq_write (h : f.Fits image.length) (v : Int) {order : List Nat}
    (ho : ∀ n, n ∈ order ↔ n < f.width) : f.writeBits v order image = f.write v image := by
  refine Bytes.eq_of_bit_eq (by simp) fun k => ?_
  have hiff : f.offset.position ≤ k ∧ k - f.offset.position ∈ order ↔ f.Covers k := by
    rw [ho]
    simp only [Covers]
    omega
  rw [bit_writeBits h v fun n hn => (ho n).1 hn, bit_write h]
  simp only [hiff]

/-- What is done to the bits of a field one by one is done to the field. -/
structure Packed (f : Field) (image : Bytes) : Prop where
  readBit : ∀ n < f.width,
    readBit (f.offset.shift n) image = (f.read false image).testBit n
  writeBit : ∀ n < f.width, ∀ on i,
    (f.read false (writeBit (f.offset.shift n) on image)).testBit i =
      if i = n then on else (f.read false image).testBit i
  kept : ∀ n < f.width, ∀ on k, ¬ f.Covers k →
    (ServoBus.writeBit (f.offset.shift n) on image).bit k = image.bit k
  length : ∀ n < f.width, ∀ on,
    (ServoBus.writeBit (f.offset.shift n) on image).length = image.length
  /-- The order does not matter, and a bit may be written again. -/
  writeBits : ∀ v order, (∀ n, n ∈ order ↔ n < f.width) →
    f.writeBits v order image = f.write v image

theorem packed_of_inside (h : f.Inside image.length) : f.Packed image := by
  have hfits := inside_iff_fits.1 h
  constructor
  case readBit => exact fun n hn => readBit_eq_testBit hfits hn
  case writeBit => exact fun n hn => testBit_read_writeBit hfits hn
  case kept =>
    intro n hn on k hk
    have hne : k ≠ f.offset.position + n := by
      simp only [Covers] at hk
      omega
    rw [bit_writeBit hfits hn, if_neg hne]
  case length => exact fun n hn on => length_writeBit ..
  case writeBits => exact fun v order ho => writeBits_eq_write hfits v ho

theorem packed_of_inside_twoBytes :
    Inside ⟨⟨0, 6⟩, 3⟩ 2 ∧ (∀ n, n ∈ [2, 0, 1] ↔ n < 3) ∧
      writeBits ⟨⟨0, 6⟩, 3⟩ 5 [2, 0, 1] [0x80, 0x83] = [0x40, 0x83] ∧
      readBit (Offset.shift ⟨0, 6⟩ 2) [0x80, 0x83] = true := by
  have hinside : Inside ⟨⟨0, 6⟩, 3⟩ 2 := inside_iff_fits.2 (by decide)
  have horder : ∀ n, n ∈ [2, 0, 1] ↔ n < 3 := by
    intro n
    simp only [List.mem_cons, List.not_mem_nil, or_false]
    omega
  have hpacked : Packed ⟨⟨0, 6⟩, 3⟩ [0x80, 0x83] := packed_of_inside hinside
  exact ⟨hinside, horder, (hpacked.writeBits 5 [2, 0, 1] horder).trans (by decide),
    (hpacked.readBit 2 (by decide)).trans (by decide)⟩

end Field

end ServoBus
