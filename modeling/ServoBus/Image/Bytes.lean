/-!
# Bytes

A list of bytes is read as one number with the least significant byte first, so
that bit `k` of the list is bit `k` of its value. `Bytes.value` and `Bytes.ofValue`
are inverse to each other up to the length, and all further access to bytes goes
through them.
-/

namespace ServoBus

abbrev Bytes := List UInt8

namespace Bytes

def value : Bytes → Nat
  | [] => 0
  | b :: bs => b.toNat + 256 * value bs

/-- The last bytes of a value, as many as are asked for. -/
def ofValue : Nat → Nat → Bytes
  | 0, _ => []
  | length + 1, n => UInt8.ofNat n :: ofValue length (n / 256)

@[simp] theorem value_nil : value [] = 0 := rfl

@[simp] theorem value_cons (b : UInt8) (bs : Bytes) :
    value (b :: bs) = b.toNat + 256 * value bs := rfl

@[simp] theorem length_ofValue (length n : Nat) : (ofValue length n).length = length := by
  induction length generalizing n with
  | zero => rfl
  | succ length ih => simp [ofValue, ih]

theorem value_lt (bs : Bytes) : value bs < Nat.pow 256 bs.length := by
  induction bs with
  | nil => exact Nat.one_pos
  | cons b bs ih =>
    have hb := b.toNat_lt
    have hp : Nat.pow 256 (b :: bs).length = Nat.pow 256 bs.length * 256 := rfl
    rw [value_cons, hp]
    omega

/-- Writing keeps the low bytes of a value. -/
theorem value_ofValue (length n : Nat) : value (ofValue length n) = n % Nat.pow 256 length := by
  induction length generalizing n with
  | zero => exact (Nat.mod_one n).symm
  | succ length ih =>
    have hb : (UInt8.ofNat n).toNat = n % 256 := UInt8.toNat_ofNat'
    have hp : Nat.pow 256 (length + 1) = 256 * Nat.pow 256 length := Nat.mul_comm ..
    rw [ofValue, value_cons, ih, hb, hp, Nat.mod_mul]

/-- Nothing is lost by reading. -/
theorem ofValue_value (bs : Bytes) : ofValue bs.length (value bs) = bs := by
  induction bs with
  | nil => rfl
  | cons b bs ih =>
    have hb := b.toNat_lt
    have hq : (b.toNat + 256 * value bs) / 256 = value bs := by omega
    simp only [List.length_cons, ofValue, value_cons, hq, ih, List.cons.injEq, and_true]
    apply UInt8.toNat_inj.1
    rw [UInt8.toNat_ofNat']
    omega

/-- Bytes of one length are determined by their value. -/
theorem value_inj {as bs : Bytes} (hl : as.length = bs.length) (hv : value as = value bs) :
    as = bs := by
  rw [← ofValue_value as, ← ofValue_value bs, hl, hv]

end Bytes

/-- The low bits of an integer in two's complement. -/
def lowBits (width : Nat) (v : Int) : Nat := (v % (Nat.pow 2 width : Int)).toNat

@[simp] theorem lowBits_zero (width : Nat) : lowBits width 0 = 0 := by
  rw [lowBits, Int.zero_emod, Int.toNat_zero]

theorem lowBits_lt (width : Nat) (v : Int) : lowBits width v < Nat.pow 2 width := by
  have h : 0 < Nat.pow 2 width := Nat.pow_pos (by decide)
  have h : (0 : Int) < Nat.pow 2 width := Int.natCast_pos.2 h
  have := Int.emod_lt_of_pos v h
  have := Int.emod_nonneg v (Int.ne_of_gt h)
  simp only [lowBits]
  omega

/-- The bytes by which a value of the given width is sent to an object. Whole bytes
are sent: the last one is not cut to the width. No object is wider than 64 bits. -/
def payload (width : Nat) (v : Int) : Bytes :=
  Bytes.ofValue (min ((width + 7) / 8) 8) (lowBits 64 v)

@[simp] theorem length_payload (width : Nat) (v : Int) :
    (payload width v).length = min ((width + 7) / 8) 8 := Bytes.length_ofValue ..

end ServoBus
