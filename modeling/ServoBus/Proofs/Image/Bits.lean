import Mathlib.Data.Int.Bitwise
import Mathlib.Algebra.BigOperators.Group.Finset.Basic
import ServoBus.Proofs.Image.Assign

/-!
# Bits of bytes and of integers

Bit `k` of bytes is bit `k % 8` of byte `k / 8`. The value of the bytes has the same bits, so bytes
of one length are equal if their bits are, and a field is described by what it reads from the bits
and by what it does to them.
-/

namespace ServoBus

namespace Bytes

def bit (bs : Bytes) (k : Nat) : Bool := (bs[k / 8]?.getD 0).toNat.testBit (k % 8)

theorem bit_nil (k : Nat) : bit [] k = false := by
  simp [bit]

theorem bit_cons (b : UInt8) (bs : Bytes) (k : Nat) :
    bit (b :: bs) k = if k < 8 then b.toNat.testBit k else bit bs (k - 8) := by
  by_cases h : k < 8
  · rw [if_pos h, bit, Nat.div_eq_of_lt h, Nat.mod_eq_of_lt h]
    rfl
  · obtain ⟨i, rfl⟩ := Nat.exists_eq_add_of_le (Nat.not_lt.1 h)
    rw [if_neg h, bit, bit, Nat.add_sub_cancel_left, Nat.add_div_left i (by decide),
      Nat.add_mod_left, List.getElem?_cons_succ]

theorem testBit_value (bs : Bytes) (k : Nat) : bs.value.testBit k = bs.bit k := by
  induction bs generalizing k with
  | nil => rw [bit_nil, value_nil, Nat.zero_testBit]
  | cons b bs ih =>
    have hb : b.toNat < 2 ^ 8 := b.toNat_lt
    have hv : value (b :: bs) = 2 ^ 8 * value bs + b.toNat := by
      rw [value_cons, Nat.add_comm]
      rfl
    rw [hv, Nat.testBit_two_pow_mul_add _ hb, bit_cons, ih]

theorem bit_append (as bs : Bytes) (k : Nat) :
    bit (as ++ bs) k = if k < 8 * as.length then bit as k else bit bs (k - 8 * as.length) := by
  by_cases h : k < 8 * as.length
  · rw [if_pos h, bit, bit, List.getElem?_append_left (by omega)]
  · obtain ⟨i, rfl⟩ := Nat.exists_eq_add_of_le (Nat.not_lt.1 h)
    rw [if_neg h, bit, bit, List.getElem?_append_right (by omega), Nat.add_sub_cancel_left,
      Nat.mul_add_div (by decide), Nat.mul_add_mod, Nat.add_sub_cancel_left]

/-- Bytes of one length are equal if their bits are. -/
theorem eq_of_bit_eq {as bs : Bytes} (hl : as.length = bs.length)
    (h : ∀ k, as.bit k = bs.bit k) : as = bs := by
  refine value_inj hl (Nat.eq_of_testBit_eq fun k => ?_)
  rw [testBit_value, testBit_value, h]

end Bytes

/-- Low bits are the bits in two's complement. -/
theorem testBit_lowBits (width : Nat) (v : Int) (i : Nat) :
    (lowBits width v).testBit i = (decide (i < width) && v.testBit i) := by
  cases v with
  | ofNat n =>
    have h : lowBits width (Int.ofNat n) = n % 2 ^ width := by
      rw [lowBits, Nat.pow_eq, Int.ofNat_eq_natCast, ← Int.natCast_emod, Int.toNat_natCast]
    rw [h, Nat.testBit_mod_two_pow]
    rfl
  | negSucc n =>
    have hpos : 0 < 2 ^ width := Nat.two_pow_pos width
    have hlt : n % 2 ^ width < 2 ^ width := Nat.mod_lt n hpos
    have h : lowBits width (Int.negSucc n) = 2 ^ width - (n % 2 ^ width + 1) := by
      rw [lowBits, Nat.pow_eq, Int.negSucc_emod n (by exact_mod_cast hpos)]
      omega
    rw [h, Nat.testBit_two_pow_sub_succ hlt, Nat.testBit_mod_two_pow]
    by_cases hi : i < width
    · simp [hi, Int.testBit]
    · simp [hi]

/-- A number is made up of its bits. -/
theorem mod_two_pow_eq_sum (n width : Nat) :
    n % 2 ^ width = ∑ i ∈ Finset.range width, (n.testBit i).toNat * 2 ^ i := by
  induction width with
  | zero => simp [Nat.mod_one]
  | succ width ih =>
    rw [Finset.sum_range_succ, ← ih, Nat.pow_succ, Nat.mod_mul, ← Nat.toNat_testBit,
      Nat.mul_comm]

namespace Field

variable {f g : Field} {image : Bytes}

instance (f : Field) (k : Nat) : Decidable (f.Covers k) := inferInstanceAs (Decidable (_ ∧ _))

/-- The field has a width, begins within a byte, and its bits are in bytes of the image. -/
def Inside (f : Field) (length : Nat) : Prop :=
  1 ≤ f.width ∧ f.width ≤ 32 ∧ f.offset.bit ≤ 7 ∧ ∀ k, f.Covers k → k / 8 < length

theorem inside_iff_fits {length : Nat} : f.Inside length ↔ f.Fits length := by
  constructor
  · rintro ⟨hpos, hwidth, hbit, hbytes⟩
    have hlast := hbytes (f.offset.position + f.width - 1) (by simp only [Covers]; omega)
    refine ⟨hpos, hwidth, by omega, ?_⟩
    simp only [stop, Offset.position] at *
    omega
  · intro h
    have hle := position_add_width_le h
    obtain ⟨hpos, hwidth, hbit, -⟩ := h
    refine ⟨hpos, hwidth, by omega, fun k hk => ?_⟩
    simp only [Covers] at hk
    omega

theorem testBit_raw_eq (h : f.Fits image.length) (i : Nat) :
    (f.raw image).testBit i = (decide (i < f.width) && image.bit (f.offset.position + i)) := by
  rw [testBit_raw h, Bytes.testBit_value]

/-- Writing puts the bits of a value into the field and leaves all others. -/
theorem bit_write (h : f.Fits image.length) (v : Int) (k : Nat) :
    (f.write v image).bit k =
      if f.Covers k then v.testBit (k - f.offset.position) else image.bit k := by
  have hwritten := testBit_write v h k
  rw [Bytes.testBit_value, Bytes.testBit_value] at hwritten
  rw [hwritten]
  by_cases hk : f.Covers k
  · have hlt : k - f.offset.position < f.width := by
      obtain ⟨hlow, hhigh⟩ := hk
      omega
    rw [if_pos hk]
    refine (if_pos hk).trans ?_
    rw [testBit_lowBits, decide_eq_true hlt, Bool.true_and]
  · rw [if_neg hk]
    exact if_neg hk

/-- The raw value is made up of the bits of the field. -/
theorem raw_eq_sum (h : f.Fits image.length) :
    f.raw image =
      ∑ i ∈ Finset.range f.width, (image.bit (f.offset.position + i)).toNat * 2 ^ i := by
  have hlt : f.raw image < 2 ^ f.width := f.raw_lt image
  rw [← Nat.mod_eq_of_lt hlt, mod_two_pow_eq_sum]
  refine Finset.sum_congr rfl fun i hi => ?_
  rw [testBit_raw_eq h, decide_eq_true (Finset.mem_range.1 hi), Bool.true_and]

/-- In two's complement the highest bit of a field counts negative. -/
theorem bmod_raw (h : f.Fits image.length) :
    Int.bmod (f.raw image) (2 ^ f.width) =
      f.raw image - if image.bit (f.offset.position + (f.width - 1)) then 2 ^ f.width else 0 := by
  have hlt : f.raw image < 2 ^ f.width := f.raw_lt image
  have htop := testBit_raw_eq h (f.width - 1)
  have hpos := h.1
  rw [decide_eq_true (by omega), Bool.true_and, Nat.testBit_eq_decide_div_mod_eq] at htop
  rw [← htop]
  have hpow : 2 ^ f.width = 2 * 2 ^ (f.width - 1) := by
    rw [← Nat.pow_succ', Nat.succ_eq_add_one, Nat.sub_add_cancel hpos]
  have hcast : (2 : Int) ^ f.width = (2 * 2 ^ (f.width - 1) : Nat) := by
    rw [← hpow]
    push_cast
    rfl
  rw [hcast, hpow]
  rw [hpow] at hlt
  by_cases hr : f.raw image < 2 ^ (f.width - 1)
  · rw [Nat.div_eq_of_lt hr, if_neg (by decide), Int.sub_zero]
    exact Int.bmod_eq_of_le (by omega) (by omega)
  · have hdiv : f.raw image / 2 ^ (f.width - 1) = 1 := by
      refine Nat.div_eq_of_lt_le ?_ ?_ <;> omega
    rw [hdiv, if_pos (by decide), ← Int.sub_bmod_right]
    exact Int.bmod_eq_of_le (by omega) (by omega)

end Field

end ServoBus
