import ServoBus.Proofs.Image.Word

/-!
# The laws of a field

What is read from a field is made up of its bits, and what is written goes to its bits and to no
others. From this follow the laws of the two directions: what was written is read back, writing
what was read changes nothing, and fields that share no bit do not disturb each other.
-/

namespace ServoBus

namespace Field

variable {f g : Field} {image : Bytes}

/-- The value that is read, in either reading, has the bits of the field as its low bits. -/
theorem lowBits_read (f : Field) (signed : Bool) (image : Bytes) :
    lowBits f.width (f.read signed image) = f.raw image := by
  have hlt : f.raw image < 2 ^ f.width := f.raw_lt image
  have hraw : (f.raw image : Int) % (2 ^ f.width : Nat) = f.raw image :=
    Int.emod_eq_of_lt (Int.natCast_nonneg _) (Int.ofNat_lt.2 hlt)
  cases signed with
  | false => exact congrArg Int.toNat hraw
  | true =>
    have hread : (f.read true image) % (2 ^ f.width : Nat) = f.raw image := by
      rw [read, if_pos rfl, Nat.pow_eq, Int.bmod_emod, hraw]
    exact congrArg Int.toNat hread

theorem read_false_write (h : f.Fits image.length) (v : Int) :
    f.read false (f.write v image) = v % (2 ^ f.width : Nat) := by
  have hpos : (0 : Int) < (2 ^ f.width : Nat) := Int.natCast_pos.2 (Nat.two_pow_pos _)
  simp only [read, Bool.false_eq_true, if_false, raw_write v h, lowBits]
  exact Int.toNat_of_nonneg (Int.emod_nonneg v hpos.ne')

theorem read_true_write (h : f.Fits image.length) (v : Int) :
    f.read true (f.write v image) = Int.bmod v (2 ^ f.width) := by
  have hunsigned := read_false_write h v
  simp only [read, Bool.false_eq_true, if_false] at hunsigned
  rw [read, if_pos rfl, hunsigned, Nat.pow_eq, Int.emod_bmod]

theorem write_read (f : Field) (signed : Bool) (image : Bytes) :
    f.write (f.read signed image) image = image := by
  by_cases h : f.Fits image.length
  · refine Bytes.eq_of_bit_eq (length_write ..) fun k => ?_
    rw [bit_write h]
    by_cases hk : f.Covers k
    · have hlt : k - f.offset.position < f.width := by
        obtain ⟨hlow, hhigh⟩ := hk
        omega
      have hbit := testBit_lowBits f.width (f.read signed image) (k - f.offset.position)
      rw [lowBits_read, testBit_raw_eq h, decide_eq_true hlt, Bool.true_and, Bool.true_and,
        Nat.add_sub_cancel' hk.1] at hbit
      rw [if_pos hk, hbit]
    · rw [if_neg hk]
  · exact write_of_not_fits _ h

/-- Writes to fields without a common bit commute. -/
theorem write_comm (hd : ∀ k, f.Covers k → ¬ g.Covers k) (v w : Int) (image : Bytes) :
    f.write v (g.write w image) = g.write w (f.write v image) := by
  by_cases hf : f.Fits image.length
  · by_cases hg : g.Fits image.length
    · have hf' : f.Fits (g.write w image).length := by rwa [length_write]
      have hg' : g.Fits (f.write v image).length := by rwa [length_write]
      refine Bytes.eq_of_bit_eq (by simp) fun k => ?_
      rw [bit_write hf', bit_write hg', bit_write hf, bit_write hg]
      by_cases hk : f.Covers k
      · rw [if_pos hk, if_neg (hd k hk), if_pos hk]
      · rw [if_neg hk, if_neg hk]
    · have hg' : ¬ g.Fits (f.write v image).length := by rwa [length_write]
      rw [write_of_not_fits w hg, write_of_not_fits w hg']
  · have hf' : ¬ f.Fits (g.write w image).length := by rwa [length_write]
    rw [write_of_not_fits v hf, write_of_not_fits v hf']

/-- What reading and writing a field of an image mean, bit by bit, and what follows from it. -/
structure Coded (f : Field) (image : Bytes) : Prop where
  readWord : ∀ signed, f.readWord signed image = f.read signed image
  writeWord : ∀ v, f.writeWord v image = f.write v image
  unsigned : f.Inside image.length → f.read false image =
    (∑ i ∈ Finset.range f.width, (image.bit (f.offset.position + i)).toNat * 2 ^ i : Nat)
  signed : f.Inside image.length → f.read true image =
    (∑ i ∈ Finset.range f.width, (image.bit (f.offset.position + i)).toNat * 2 ^ i : Nat) -
      if image.bit (f.offset.position + (f.width - 1)) then 2 ^ f.width else 0
  written : f.Inside image.length → ∀ v, ∀ i < f.width,
    (f.write v image).bit (f.offset.position + i) = v.testBit i
  kept : ∀ v k, ¬ f.Covers k → (f.write v image).bit k = image.bit k
  length : ∀ v, (f.write v image).length = image.length
  outside : ¬ f.Inside image.length →
    (∀ signed, f.read signed image = 0) ∧ ∀ v, f.write v image = image
  readBack : f.Inside image.length → ∀ v,
    f.read false (f.write v image) = v % (2 ^ f.width : Nat) ∧
      f.read true (f.write v image) = Int.bmod v (2 ^ f.width)
  writeBack : ∀ signed, f.write (f.read signed image) image = image
  commutes : ∀ g : Field, (∀ k, f.Covers k → ¬ g.Covers k) → ∀ v w,
    f.write v (g.write w image) = g.write w (f.write v image)

theorem coded (f : Field) (image : Bytes) : f.Coded image where
  readWord signed := readWord_eq_read f signed image
  writeWord v := writeWord_eq_write f v image
  unsigned h := congrArg Int.ofNat (raw_eq_sum (inside_iff_fits.1 h))
  signed h := by
    have hfits := inside_iff_fits.1 h
    rw [← raw_eq_sum hfits]
    exact bmod_raw hfits
  written h v i hi := by
    have hk : f.Covers (f.offset.position + i) := ⟨by omega, by omega⟩
    rw [bit_write (inside_iff_fits.1 h), if_pos hk, Nat.add_sub_cancel_left]
  kept v k hk := by
    by_cases h : f.Fits image.length
    · rw [bit_write h, if_neg hk]
    · rw [write_of_not_fits v h]
  length v := length_write f v image
  outside h := by
    have hfits : ¬ f.Fits image.length := fun hf => h (inside_iff_fits.2 hf)
    exact ⟨fun signed => read_of_not_fits signed hfits, fun v => write_of_not_fits v hfits⟩
  readBack h v :=
    have hfits := inside_iff_fits.1 h
    ⟨read_false_write hfits v, read_true_write hfits v⟩
  writeBack signed := write_read f signed image
  commutes _ hd v w := write_comm hd v w image

end Field

end ServoBus
