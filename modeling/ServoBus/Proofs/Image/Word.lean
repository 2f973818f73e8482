import Mathlib.Tactic.LinearCombination
import ServoBus.Image.Word
import ServoBus.Proofs.Image.Bits

/-!
# The word of a field holds its bits

The word of some bytes has their bits, as far as it has any, and the bytes of a word have its bits.
So what shifts and masks do in the word around a field is done to the bits of the image, and the
field reads and writes through its word as it does on the image as a whole.
-/

namespace ServoBus

namespace Bytes

theorem getLsbD_word (bs : Bytes) {k : Nat} (hk : k < 64) : bs.word.getLsbD k = bs.bit k := by
  induction bs generalizing k with
  | nil =>
    rw [word_nil, bit_nil]
    exact BitVec.getLsbD_zero
  | cons b bs ih =>
    rw [word_cons, bit_cons, BitVec.getLsbD_or, BitVec.getLsbD_shiftLeft, BitVec.getLsbD_setWidth]
    by_cases h : k < 8
    · simp only [h, hk, decide_true, Bool.not_true, Bool.true_and, Bool.false_and, Bool.false_or,
        if_true]
      rfl
    · have hhigh : b.toBitVec.getLsbD k = false := BitVec.getLsbD_of_ge _ _ (Nat.not_lt.1 h)
      simp [h, hk, hhigh, ih (Nat.lt_of_le_of_lt (Nat.sub_le k 8) hk)]

theorem bit_ofWord (length : Nat) (w : Word) (k : Nat) :
    (ofWord length w).bit k = (decide (k < 8 * length) && w.getLsbD k) := by
  induction length generalizing w k with
  | zero => simp [ofWord, bit_nil]
  | succ length ih =>
    have hfirst : (UInt8.ofBitVec (w.setWidth 8)).toNat.testBit k =
        (decide (k < 8) && w.getLsbD k) := BitVec.getLsbD_setWidth 8 w k
    rw [ofWord, bit_cons, ih, BitVec.getLsbD_ushiftRight, hfirst]
    by_cases h : k < 8
    · have hlt : k < 8 * (length + 1) := by omega
      rw [if_pos h, decide_eq_true h, decide_eq_true hlt]
    · have hiff : k - 8 < 8 * length ↔ k < 8 * (length + 1) := by omega
      rw [if_neg h, Nat.add_sub_cancel' (Nat.not_lt.1 h), decide_eq_decide.2 hiff]

end Bytes

namespace Word

theorem getLsbD_mask {width : Nat} (h : width < 64) (k : Nat) :
    (mask width).getLsbD k = decide (k < width) := by
  have hpow : 2 ^ width < 2 ^ 64 := Nat.pow_lt_pow_right (by decide) h
  have hpos := Nat.two_pow_pos width
  have hmask : (mask width).toNat = 2 ^ width - 1 := by
    have hone : (1 : Word).toNat = 1 := rfl
    rw [mask, BitVec.toNat_sub, BitVec.toNat_shiftLeft, Nat.shiftLeft_eq, hone]
    omega
  rw [← BitVec.testBit_toNat, hmask, Nat.testBit_two_pow_sub_one]

theorem getLsbD_ofInt (v : Int) {k : Nat} (hk : k < 64) :
    (BitVec.ofInt 64 v).getLsbD k = v.testBit k := by
  have hlow : (BitVec.ofInt 64 v).toNat = lowBits 64 v := BitVec.toNat_ofInt v
  rw [← BitVec.testBit_toNat, hlow, testBit_lowBits, decide_eq_true hk, Bool.true_and]

/-- Under a mask a word takes the bits of a value, and elsewhere it keeps its own. -/
theorem getLsbD_put (w : Word) (v : Int) {start width : Nat} (hwidth : width < 64) {k : Nat}
    (hk : k < 64) :
    ((w &&& ~~~(mask width <<< start)) |||
        (BitVec.ofInt 64 v <<< start &&& mask width <<< start)).getLsbD k =
      if start ≤ k ∧ k < start + width then v.testBit (k - start) else w.getLsbD k := by
  have hvalue := getLsbD_ofInt v (Nat.lt_of_le_of_lt (Nat.sub_le k start) hk)
  have hmask : (mask width <<< start).getLsbD k = decide (start ≤ k ∧ k < start + width) := by
    rw [BitVec.getLsbD_shiftLeft, getLsbD_mask hwidth]
    by_cases hlow : k < start
    · have hout : ¬ (start ≤ k ∧ k < start + width) := by omega
      simp [hlow, hout]
    · have hiff : k - start < width ↔ start ≤ k ∧ k < start + width := by omega
      rw [decide_eq_true hk, decide_eq_false hlow, decide_eq_decide.2 hiff, Bool.not_false,
        Bool.true_and, Bool.true_and]
  rw [BitVec.getLsbD_or, BitVec.getLsbD_and, BitVec.getLsbD_and, BitVec.getLsbD_not, hmask,
    BitVec.getLsbD_shiftLeft, hvalue]
  by_cases hin : start ≤ k ∧ k < start + width
  · simp [hin, hk, Nat.not_lt.2 hin.1]
  · simp [hin, hk]

/-- The balanced remainder grows with the scale. -/
theorem bmod_mul (x : Int) {half scale : Nat} (hhalf : 0 < half) (hscale : 0 < scale) :
    Int.bmod (x * scale) (2 * half * scale) = Int.bmod x (2 * half) * scale := by
  obtain ⟨q, hq⟩ := @Int.dvd_self_sub_bmod x (2 * half)
  have hlow := @Int.le_bmod x (2 * half) (by omega)
  have hhigh := @Int.bmod_lt x (2 * half) (by omega)
  generalize Int.bmod x (2 * half) = v at *
  have hx : x * scale = v * scale + (2 * half * scale : Nat) * q := by
    push_cast at hq ⊢
    linear_combination (scale : Int) * hq
  have hlow' : -(half : Int) * scale ≤ v * scale :=
    Int.mul_le_mul_of_nonneg_right (by omega) (Int.natCast_nonneg scale)
  have hhigh' : v * scale < (half : Int) * scale :=
    Int.mul_lt_mul_of_pos_right (by omega) (Int.natCast_pos.2 hscale)
  rw [hx, Int.add_mul_bmod_self_left]
  apply Int.bmod_eq_of_le
  · push_cast
    rw [Int.mul_assoc, Int.mul_ediv_cancel_left _ (by decide), ← Int.neg_mul]
    exact hlow'
  · push_cast
    rw [Int.mul_assoc]
    omega

/-- Shifting a word up and back makes the highest bit that is kept the sign. -/
theorem toInt_sshiftRight_shiftLeft (w : Word) {width : Nat} (hpos : 0 < width)
    (h : width ≤ 64) :
    ((w <<< (64 - width)).sshiftRight (64 - width)).toInt = Int.bmod w.toNat (2 ^ width) := by
  have hhalf : 2 ^ width = 2 * 2 ^ (width - 1) := by
    rw [← Nat.pow_succ', Nat.succ_eq_add_one, Nat.sub_add_cancel hpos]
  have hwhole : 2 ^ 64 = 2 * 2 ^ (width - 1) * 2 ^ (64 - width) := by
    rw [← hhalf, ← Nat.pow_add, Nat.add_sub_cancel' h]
  have hscale : 0 < 2 ^ (64 - width) := Nat.two_pow_pos _
  rw [BitVec.toInt_sshiftRight, BitVec.toInt_shiftLeft, Nat.shiftLeft_eq, Int.natCast_mul, hwhole,
    bmod_mul _ (Nat.two_pow_pos _) hscale, hhalf, Int.shiftRight_eq_div_pow]
  exact Int.mul_ediv_cancel _ (Int.natCast_ne_zero.2 hscale.ne')

end Word

namespace Field

variable {f : Field} {image before touched behind : Bytes}

theorem cut?_eq_none_iff : f.cut? image = none ↔ ¬ f.Fits image.length := by
  simp only [cut?, Fits, ite_eq_left_iff, reduceCtorEq, imp_false]
  omega

theorem fits_of_cut?_eq_some (h : f.cut? image = some (before, touched, behind)) :
    f.Fits image.length := by
  by_contra hn
  rw [cut?_eq_none_iff.2 hn] at h
  cases h

/-- The field stands in the bytes that it touches, which fit into a word. -/
theorem of_cut?_eq_some (h : f.cut? image = some (before, touched, behind)) :
    image = before ++ (touched ++ behind) ∧ before.length = f.offset.byte ∧
      f.offset.bit + f.width ≤ 8 * touched.length ∧ touched.length ≤ 5 := by
  obtain ⟨hpos, hwidth, hbit, hstop⟩ := fits_of_cut?_eq_some h
  unfold cut? at h
  rw [if_neg (by omega)] at h
  cases h
  simp only [stop] at hstop ⊢
  refine ⟨?_, ?_, ?_, ?_⟩
  · rw [List.take_append_drop, List.take_append_drop]
  · rw [List.length_take]
    omega
  · rw [List.length_take, List.length_drop]
    omega
  · rw [List.length_take, List.length_drop]
    omega

/-- With other bytes in the place of those that are touched, only the bits of these differ. -/
theorem bit_replaced (h : f.cut? image = some (before, touched, behind)) {bs : Bytes}
    (hlength : bs.length = touched.length) (k : Nat) :
    (before ++ (bs ++ behind)).bit k =
      if 8 * f.offset.byte ≤ k ∧ k < 8 * (f.offset.byte + touched.length)
        then bs.bit (k - 8 * f.offset.byte) else image.bit k := by
  obtain ⟨himage, hbefore, -, -⟩ := of_cut?_eq_some h
  rw [himage, Bytes.bit_append, Bytes.bit_append, Bytes.bit_append, Bytes.bit_append, hlength,
    hbefore]
  by_cases hlow : k < 8 * f.offset.byte
  · rw [if_pos hlow, if_pos hlow, if_neg (by omega)]
  · by_cases hmid : k - 8 * f.offset.byte < 8 * touched.length
    · rw [if_neg hlow, if_pos hmid, if_pos (by omega)]
    · rw [if_neg hlow, if_neg hmid, if_neg (by omega), if_neg hlow, if_neg hmid]

/-- Without the spare bits the word around a field holds its raw value. -/
theorem toNat_word_eq_raw (h : f.cut? image = some (before, touched, behind)) :
    ((touched.word >>> f.offset.bit) &&& Word.mask f.width).toNat = f.raw image := by
  have hfits := fits_of_cut?_eq_some h
  have hwidth := hfits.2.1
  obtain ⟨himage, -, htouched, hfive⟩ := of_cut?_eq_some h
  refine Nat.eq_of_testBit_eq fun i => ?_
  rw [BitVec.testBit_toNat, BitVec.getLsbD_and, BitVec.getLsbD_ushiftRight,
    Word.getLsbD_mask (by omega), testBit_raw_eq hfits, Bool.and_comm]
  by_cases hi : i < f.width
  · have hbit := bit_replaced h rfl (f.offset.position + i)
    have hplace : f.offset.position + i - 8 * f.offset.byte = f.offset.bit + i := by
      simp only [Offset.position]
      omega
    rw [← himage, if_pos (by simp only [Offset.position]; omega), hplace] at hbit
    rw [Bytes.getLsbD_word _ (by omega), hbit]
  · simp [hi]

theorem readWord_eq_read (f : Field) (signed : Bool) (image : Bytes) :
    f.readWord signed image = f.read signed image := by
  unfold readWord
  split
  · next h => exact (read_of_not_fits signed (cut?_eq_none_iff.1 h)).symm
  · next before touched behind h =>
    have hfits := fits_of_cut?_eq_some h
    have hraw := toNat_word_eq_raw h
    have hwidth := hfits.2.1
    cases signed with
    | false =>
      have hlt := f.raw_lt image
      have hle : Nat.pow 2 f.width ≤ 2 ^ 32 := Nat.pow_le_pow_right (by decide) hwidth
      simp only [Bool.false_eq_true, if_false, read]
      rw [BitVec.toInt_eq_toNat_of_lt (by rw [hraw]; omega), hraw]
    | true =>
      simp only [if_true, read]
      rw [Word.toInt_sshiftRight_shiftLeft _ hfits.1 (by omega), hraw]
      rfl

theorem writeWord_eq_write (f : Field) (v : Int) (image : Bytes) :
    f.writeWord v image = f.write v image := by
  unfold writeWord
  split
  · next h => exact (write_of_not_fits v (cut?_eq_none_iff.1 h)).symm
  · next before touched behind h =>
    have hfits := fits_of_cut?_eq_some h
    have hwidth := hfits.2.1
    obtain ⟨himage, -, htouched, hfive⟩ := of_cut?_eq_some h
    refine Bytes.eq_of_bit_eq ?_ fun k => ?_
    · simp [himage]
    rw [bit_write hfits, bit_replaced h (Bytes.length_ofWord ..), Bytes.bit_ofWord]
    -- The field covers bits of the bytes that it touches, and none before or behind them.
    by_cases hin : 8 * f.offset.byte ≤ k ∧ k < 8 * (f.offset.byte + touched.length)
    · have hkept := bit_replaced h rfl k
      rw [← himage, if_pos hin] at hkept
      have hplace : k - 8 * f.offset.byte - f.offset.bit = k - f.offset.position := by
        simp only [Offset.position]
        omega
      have hcovers : (f.offset.bit ≤ k - 8 * f.offset.byte ∧
          k - 8 * f.offset.byte < f.offset.bit + f.width) ↔ f.Covers k := by
        simp only [Covers, Offset.position]
        omega
      rw [if_pos hin, decide_eq_true (by omega), Bool.true_and,
        Word.getLsbD_put _ v (by omega) (by omega), Bytes.getLsbD_word _ (by omega), ← hkept,
        hplace]
      simp only [hcovers]
    · have hout : ¬ f.Covers k := by
        simp only [Covers, Offset.position]
        omega
      rw [if_neg hin, if_neg hout]

end Field

end ServoBus
