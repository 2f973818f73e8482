/-!
# Whole numbers and doubles

A double becomes a word with sign by dropping its fraction and clamping what is left
to the range of the word. Something that is not a number becomes zero. A word of 64
bits becomes the double next to it.
-/

namespace ServoBus.Decimal

/-- The whole part of a double, clamped to the words of `width` bits. -/
def whole (width : Nat) (x : Float) : Int :=
  if x < 0 then max (-(Nat.pow 2 (width - 1) : Int)) (-x.abs.toUInt64.toNat)
  else min (Nat.pow 2 (width - 1) - 1 : Int) x.toUInt64.toNat

theorem le_whole (width : Nat) (x : Float) : -(Nat.pow 2 (width - 1) : Int) ≤ whole width x := by
  have h : 0 < Nat.pow 2 (width - 1) := Nat.pow_pos (by decide)
  unfold whole
  split <;> omega

theorem whole_lt (width : Nat) (x : Float) : whole width x < Nat.pow 2 (width - 1) := by
  have h : 0 < Nat.pow 2 (width - 1) := Nat.pow_pos (by decide)
  unfold whole
  split <;> omega

/-- The double nearest to a word of 64 bits with sign. -/
def ofWhole (n : Int) : Float :=
  if n < 0 then -(UInt64.ofNat n.natAbs).toFloat else (UInt64.ofNat n.natAbs).toFloat

end ServoBus.Decimal
