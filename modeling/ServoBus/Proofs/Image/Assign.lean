import ServoBus.Image.Field

/-!
# Fields that are set one after the other

The output half of a cycle sets one field of the image after the other. Assignments may be
repeated, but as long as those that differ share no bit, their order does not matter: at the
end every field that fits holds its value, and a bit outside of these fields is what it was.
-/

namespace ServoBus

/-- A bit of the image belongs to the field. -/
def Field.Covers (f : Field) (i : Nat) : Prop :=
  f.offset.position ≤ i ∧ i < f.offset.position + f.width

/-- Fields without a common bit are disjoint, unless one is empty. -/
theorem Field.disjoint_of_covers {f g : Field} (hf : 0 < f.width) (hg : 0 < g.width)
    (h : ∀ i, f.Covers i → ¬ g.Covers i) : f.Disjoint g := by
  have hstart := h f.offset.position
  have hstart' := h g.offset.position
  simp only [Covers] at hstart hstart'
  simp only [Disjoint]
  omega

/-- The field of a bit fits if the byte of the bit is in the image. -/
theorem fits_bitField_iff {o : Offset} {n length : Nat} :
    (bitField (o.shift n)).Fits length ↔ (o.position + n) / 8 < length := by
  simp only [Field.Fits, Field.stop, bitField, Offset.shift]
  omega

/-- A bit that is in the image is the value of its field. -/
theorem testBit_of_raw_bitField {o : Offset} {n : Nat} {on : Bool} {image : Bytes}
    (hf : (bitField (o.shift n)).Fits image.length)
    (h : (bitField (o.shift n)).raw image = lowBits 1 (if on then 1 else 0)) :
    image.value.testBit (o.position + n) = on := by
  have hraw := Field.testBit_raw hf 0
  rw [h, bitField, Offset.position_shift] at hraw
  cases on with
  | false => simpa [lowBits] using hraw.symm
  | true => simpa [lowBits] using hraw.symm

theorem raw_bitField (o : Offset) (image : Bytes) :
    (bitField o).raw image = 0 ∨ (bitField o).raw image = 1 := by
  have hlt : (bitField o).raw image < 2 := (bitField o).raw_lt image
  omega

/-- The value of the field of a bit is one or zero. -/
theorem read_bitField (o : Offset) (image : Bytes) :
    (bitField o).read false image = if readBit o image then 1 else 0 := by
  rcases raw_bitField o image with h | h <;> simp [Field.read, readBit, h]

/-- A bit reads as it is in the image, and beyond the end of the image as zero. -/
theorem readBit_shift (o : Offset) (n : Nat) (image : Bytes) :
    readBit (o.shift n) image =
      (decide ((o.position + n) / 8 < image.length) && image.value.testBit (o.position + n)) := by
  by_cases hf : (bitField (o.shift n)).Fits image.length
  · have hbit : ((bitField (o.shift n)).raw image).testBit 0 =
        image.value.testBit (o.position + n) := by
      rw [Field.testBit_raw hf]
      simp [bitField]
    rw [decide_eq_true (fits_bitField_iff.1 hf), Bool.true_and, ← hbit, readBit]
    rcases raw_bitField (o.shift n) image with h | h <;> simp [h]
  · rw [readBit, Field.raw_of_not_fits hf, decide_eq_false (mt fits_bitField_iff.2 hf)]
    rfl

/-- A field and the value that it is set to. -/
structure Assignment where
  field : Field
  value : Int
deriving DecidableEq, Repr

namespace Assignment

def apply (image : Bytes) (a : Assignment) : Bytes := a.field.write a.value image

/-- Sets the fields one after the other. -/
def applyAll (as : List Assignment) (image : Bytes) : Bytes := as.foldl apply image

@[simp] theorem length_apply (image : Bytes) (a : Assignment) :
    (apply image a).length = image.length := Field.length_write ..

@[simp] theorem length_applyAll (as : List Assignment) (image : Bytes) :
    (applyAll as image).length = image.length := by
  induction as generalizing image with
  | nil => rfl
  | cons a as ih => exact (ih (apply image a)).trans (length_apply image a)

theorem applyAll_append (as bs : List Assignment) (image : Bytes) :
    applyAll (as ++ bs) image = applyAll bs (applyAll as image) := List.foldl_append

theorem raw_applyAll_of_disjoint {as : List Assignment} {f : Field} {image : Bytes}
    (h : ∀ a ∈ as, a.field.Disjoint f) : f.raw (applyAll as image) = f.raw image := by
  induction as generalizing image with
  | nil => rfl
  | cons a as ih =>
    have hrest : ∀ b ∈ as, b.field.Disjoint f := fun b hb => h b (List.mem_cons_of_mem a hb)
    exact (ih hrest).trans (Field.raw_write_of_disjoint a.value (h a List.mem_cons_self))

/-- A field that fits holds its value, if nothing else touches it. -/
theorem raw_applyAll {as : List Assignment} {a : Assignment} {image : Bytes} (ha : a ∈ as)
    (h : ∀ b ∈ as, b = a ∨ b.field.Disjoint a.field) (hf : a.field.Fits image.length) :
    a.field.raw (applyAll as image) = lowBits a.field.width a.value := by
  induction as generalizing image with
  | nil => cases ha
  | cons b as ih =>
    have hrest : ∀ c ∈ as, c = a ∨ c.field.Disjoint a.field :=
      fun c hc => h c (List.mem_cons_of_mem b hc)
    by_cases hmem : a ∈ as
    · refine ih hmem hrest ?_
      rw [length_apply]
      exact hf
    · -- the last assignment to the field is this one
      have hab : a = b := (List.mem_cons.1 ha).resolve_right hmem
      have hdisjoint : ∀ c ∈ as, c.field.Disjoint a.field := by
        intro c hc
        rcases hrest c hc with heq | hd
        · rw [heq] at hc
          exact absurd hc hmem
        · exact hd
      have hlast : a.field.raw (applyAll as (apply image b)) = a.field.raw (apply image b) :=
        raw_applyAll_of_disjoint hdisjoint
      rw [← hab] at hlast
      rw [← hab]
      exact hlast.trans (Field.raw_write a.value hf)

/-- A bit outside of the fields that fit is what it was. -/
theorem testBit_applyAll {as : List Assignment} {i : Nat} {image : Bytes}
    (h : ∀ a ∈ as, a.field.Fits image.length → ¬ a.field.Covers i) :
    (applyAll as image).value.testBit i = image.value.testBit i := by
  induction as generalizing image with
  | nil => rfl
  | cons a as ih =>
    have hrest : ∀ b ∈ as, b.field.Fits (apply image a).length → ¬ b.field.Covers i := by
      rw [length_apply]
      exact fun b hb => h b (List.mem_cons_of_mem a hb)
    have hfirst : (apply image a).value.testBit i = image.value.testBit i := by
      by_cases hf : a.field.Fits image.length
      · rw [apply, Field.testBit_write a.value hf]
        exact if_neg (h a List.mem_cons_self hf)
      · rw [apply, Field.write_of_not_fits a.value hf]
    exact (ih hrest).trans hfirst

end Assignment

end ServoBus
