import Mathlib

/-!
# Rounding

Every operation on doubles computes a significand with two further bits, which say where the exact
result lies between two neighbours, and then shifts all of it to the exponent that the result has
in the end. A shift keeps what the bits say about the exact result, so that rounding goes to the
nearer neighbour, and an exact result on the grid of this exponent is kept.
-/

namespace ServoBus.Double

open Float.Model Float.Model.UnpackedFloat

theorem two_zpow_pos (e : Int) : (0 : ℚ) < 2 ^ e := zpow_pos (by norm_num) e

section Bits

variable {em : ExtendedMantissa} {z : ℚ}

/-- The number lies where the significand and the two bits behind it say. -/
def Locates (em : ExtendedMantissa) (z : ℚ) : Prop :=
  match em.roundBit, em.stickyBit with
  | false, false => z = em.mantissa
  | false, true => em.mantissa < z ∧ z < em.mantissa + 1 / 2
  | true, false => z = em.mantissa + 1 / 2
  | true, true => em.mantissa + 1 / 2 < z ∧ z < em.mantissa + 1

theorem locates_exact (m : Nat) :
    Locates (.ofMantissaAndAccuracy m .exact) m := rfl

theorem Locates.shiftRightOne (h : Locates em z) : Locates em.shiftRightOne (z / 2) := by
  obtain ⟨m, r, s⟩ := em
  have hm : (m : ℚ) = 2 * (m / 2 : ℕ) + (m % 2 : ℕ) := by
    exact_mod_cast (Nat.div_add_mod m 2).symm
  rcases Nat.mod_two_eq_zero_or_one m with hr | hr <;> cases r <;> cases s <;>
    simp_all [Locates, ExtendedMantissa.shiftRightOne] <;> grind

theorem Locates.shiftRight (h : Locates em z) (k : Nat) : Locates (em >>> k) (z / 2 ^ k) := by
  change Locates (k.repeat ExtendedMantissa.shiftRightOne em) _
  induction k with
  | zero => simpa [Nat.repeat] using h
  | succ k ih =>
    rw [pow_succ, ← div_div]
    exact ih.shiftRightOne

theorem Locates.bounds (h : Locates em z) : em.mantissa ≤ z ∧ z < em.mantissa + 1 := by
  obtain ⟨m, r, s⟩ := em
  cases r <;> cases s <;> simp_all [Locates] <;> grind

theorem roundedMantissa_bounds (em : ExtendedMantissa) :
    em.mantissa ≤ em.roundedMantissa ∧ em.roundedMantissa ≤ em.mantissa + 1 := by
  obtain ⟨m, r, s⟩ := em
  cases r <;> cases s <;>
    simp [ExtendedMantissa.roundedMantissa, ExtendedMantissa.accuracy, Accuracy.roundToNearestEven]
  omega

/-- The number is rounded to a whole number that is not more than a half away from it. -/
theorem Locates.abs_sub_le (h : Locates em z) : |(em.roundedMantissa : ℚ) - z| ≤ 1 / 2 := by
  obtain ⟨m, r, s⟩ := em
  have hm : ((m % 2 : ℕ) : ℚ) = 0 ∨ ((m % 2 : ℕ) : ℚ) = 1 := by
    exact_mod_cast Nat.mod_two_eq_zero_or_one m
  rw [abs_le]
  cases r <;> cases s <;>
    simp only [Locates, ExtendedMantissa.roundedMantissa, ExtendedMantissa.accuracy,
      Accuracy.roundToNearestEven, Nat.cast_add, Nat.cast_one] at h ⊢ <;>
    grind

theorem Locates.eq_of_natCast {k : Nat} (h : Locates em k) : em.roundedMantissa = k := by
  have hnear := abs_le.1 h.abs_sub_le
  have hlow : (k : ℚ) < em.roundedMantissa + 1 := by linarith
  have hhigh : (em.roundedMantissa : ℚ) < k + 1 := by linarith
  have hlow' : k < em.roundedMantissa + 1 := by exact_mod_cast hlow
  have hhigh' : em.roundedMantissa < k + 1 := by exact_mod_cast hhigh
  omega

end Bits

/-! ### The grid of a result -/

/-- The exponent of the last place of the doubles next to a number. -/
def gridExponent (m : Nat) (e : Int) : Int := max (m.log2 + e - 52) (-1074)

theorem targetExponent_eq (m : Nat) (e : Int) :
    Format.binary64.targetExponent (totalExponent m e) = gridExponent m e := by
  simp only [Format.targetExponent, totalExponent, Format.mantissaBits, Format.minExponent,
    gridExponent]
  norm_num
  omega

/-- The number that a double stands for. -/
def unpackedValue? : UnpackedFloat → Option ℚ
  | .zero _ => some 0
  | .finite s m e _ => some ((s.apply m : Int) * (2 : ℚ) ^ e)
  | _ => none

/-- A significand has 53 places, and fewer only at the lowest exponent. -/
def Canonical : UnpackedFloat → Prop
  | .finite _ m e _ => m < 2 ^ 53 ∧ -1074 ≤ e ∧ (2 ^ 52 ≤ m ∨ e = -1074)
  | _ => True

theorem log2_le_of_lt {m : Nat} (h : m < 2 ^ 53) : m.log2 ≤ 52 := by
  rcases Nat.eq_zero_or_pos m with rfl | hpos
  · decide
  · exact Nat.le_of_lt_succ ((Nat.log2_lt hpos.ne').2 h)

theorem shiftToTargetExponent_of_lt {m : Nat} {e : Int} (hm : m < 2 ^ 53) (he : -1074 ≤ e) :
    shiftToTargetExponent Format.binary64 m e .exact = (⟨m, false, false⟩, e) := by
  have hlog := log2_le_of_lt hm
  have hshift : (gridExponent m e - e).toNat = 0 := by
    rw [gridExponent]
    omega
  rw [shiftToTargetExponent, targetExponent_eq, shiftToExponent, hshift, Nat.cast_zero, add_zero]
  rfl

/-- Rounding up may carry out of the significand. -/
theorem shiftToTargetExponent_carry {e : Int} (he : -1074 ≤ e) :
    shiftToTargetExponent Format.binary64 (2 ^ 53) e .exact =
      (⟨2 ^ 52, false, false⟩, e + 1) := by
  have hshift : (gridExponent (2 ^ 53) e - e).toNat = 1 := by
    rw [gridExponent, Nat.log2_two_pow]
    omega
  rw [shiftToTargetExponent, targetExponent_eq, shiftToExponent, hshift]
  rfl

/-- A number of steps on a grid, as a double. -/
structure OnGrid (s : Sign) (t : Int) (r : Nat) (f : UnpackedFloat) : Prop where
  value : unpackedValue? f = some ((s.apply r : Int) * (2 : ℚ) ^ t)
  canonical : Canonical f

theorem onGrid_roundWithAccuracy {m : Nat} {e t : Int} {accuracy : Accuracy}
    {em : ExtendedMantissa} (s : Sign)
    (hfirst : shiftToTargetExponent Format.binary64 m e accuracy = (em, t)) (ht : -1074 ≤ t)
    (hle : em.roundedMantissa ≤ 2 ^ 53) (hfull : 2 ^ 52 ≤ em.roundedMantissa ∨ t = -1074) :
    OnGrid s t em.roundedMantissa (roundWithAccuracy Format.binary64 s m e accuracy) := by
  rw [roundWithAccuracy, hfirst]
  dsimp only
  generalize em.roundedMantissa = r at hle hfull
  rcases hle.lt_or_eq with hr | rfl
  · rw [shiftToTargetExponent_of_lt hr ht]
    dsimp only
    split
    · next hzero =>
      subst hzero
      exact ⟨by cases s <;> simp [unpackedValue?, Sign.apply], trivial⟩
    · exact ⟨rfl, hr, ht, hfull⟩
  · rw [shiftToTargetExponent_carry ht]
    change OnGrid s t (2 ^ 53) (.finite s (2 ^ 52) (t + 1) (by decide))
    refine ⟨?_, by decide, by omega, Or.inl le_rfl⟩
    have hpow : (2 : ℚ) ^ (t + 1) = 2 ^ t * 2 := zpow_add_one₀ (by norm_num) t
    rw [unpackedValue?, hpow]
    cases s <;> norm_num [Sign.apply] <;> ring

/-- What an exact result is rounded to: a number of steps on its grid, the nearest one. -/
structure Rounds (s : Sign) (x : ℚ) (t : Int) (r : Nat) (f : UnpackedFloat) : Prop
    extends OnGrid s t r f where
  near : |(r : ℚ) - x / 2 ^ t| ≤ 1 / 2
  exact : ∀ k : ℕ, x / 2 ^ t = k → r = k
  full : 2 ^ 52 ≤ r ∨ t = -1074
  le : r ≤ 2 ^ 53
  lt : x / 2 ^ t < 2 ^ 53
  ge : 2 ^ 52 ≤ x / 2 ^ t ∨ t = -1074

/-- The exact result has as many places on its grid as a significand has. -/
theorem bounds_on_grid {m k : Nat} {e : Int} {z : ℚ} (hlow : m ≤ z) (hhigh : z < m + 1)
    (hk : gridExponent m e = e + k) :
    z / 2 ^ k < 2 ^ 53 ∧ (2 ^ 52 ≤ z / 2 ^ k ∨ gridExponent m e = -1074) := by
  have hpow : (0 : ℚ) < 2 ^ k := by positivity
  rw [div_lt_iff₀ hpow, le_div_iff₀ hpow, ← pow_add, ← pow_add]
  constructor
  · have hm : m + 1 ≤ 2 ^ (m.log2 + 1) := Nat.lt_log2_self
    have hle : 2 ^ (m.log2 + 1) ≤ 2 ^ (53 + k) := Nat.pow_le_pow_right (by decide) (by
      rw [gridExponent] at hk
      omega)
    exact lt_of_lt_of_le hhigh (by exact_mod_cast hm.trans hle)
  · rw [or_iff_not_imp_right]
    intro hne
    have hlog : 52 + k = m.log2 := by
      rw [gridExponent] at hk hne
      omega
    have hne0 : m ≠ 0 := by
      rintro rfl
      rw [Nat.log2_zero] at hlog
      omega
    have hm : 2 ^ m.log2 ≤ m := Nat.log2_self_le hne0
    rw [hlog]
    exact le_trans (by exact_mod_cast hm) hlow

theorem rounds_roundWithAccuracy {m : Nat} {e : Int} {accuracy : Accuracy} {z : ℚ} (s : Sign)
    (h : Locates (.ofMantissaAndAccuracy m accuracy) z) (he : e ≤ gridExponent m e) :
    ∃ r, Rounds s (z * 2 ^ e) (gridExponent m e) r
      (roundWithAccuracy Format.binary64 s m e accuracy) := by
  have hmantissa : (ExtendedMantissa.ofMantissaAndAccuracy m accuracy).mantissa = m := by
    cases accuracy with
    | exact => rfl
    | inexact o => cases o <;> rfl
  have hz := h.bounds
  rw [hmantissa] at hz
  obtain ⟨k, hk⟩ := Int.eq_ofNat_of_zero_le (Int.sub_nonneg_of_le he)
  have hte : gridExponent m e = e + k := by omega
  obtain ⟨hlt, hfull⟩ := bounds_on_grid hz.1 hz.2 hte
  have hloc := h.shiftRight k
  have hfirst : shiftToTargetExponent Format.binary64 m e accuracy =
      (ExtendedMantissa.ofMantissaAndAccuracy m accuracy >>> k, gridExponent m e) := by
    rw [shiftToTargetExponent, targetExponent_eq, shiftToExponent, hk, Int.toNat_natCast, ← hte]
  have hgrid : z * 2 ^ e / 2 ^ gridExponent m e = z / 2 ^ k := by
    have hpos := two_zpow_pos e
    rw [hte, zpow_add₀ (by norm_num), zpow_natCast]
    field_simp
  generalize ExtendedMantissa.ofMantissaAndAccuracy m accuracy >>> k = em at hloc hfirst
  have hbounds := hloc.bounds
  have hrounded := roundedMantissa_bounds em
  have hle : em.mantissa < 2 ^ 53 := by
    have hcast : (em.mantissa : ℚ) < 2 ^ 53 := lt_of_le_of_lt hbounds.1 hlt
    exact_mod_cast hcast
  have hfull' : 2 ^ 52 ≤ em.roundedMantissa ∨ gridExponent m e = -1074 := by
    refine hfull.imp_left fun hfull => ?_
    have hcast : (2 ^ 52 : ℚ) < em.mantissa + 1 := lt_of_le_of_lt hfull hbounds.2
    have hnat : 2 ^ 52 < em.mantissa + 1 := by exact_mod_cast hcast
    omega
  refine ⟨em.roundedMantissa,
    { toOnGrid := onGrid_roundWithAccuracy s hfirst (le_max_right _ _) (by omega) hfull'
      near := ?_, exact := ?_, full := hfull', le := by omega
      lt := by rwa [hgrid], ge := by rwa [hgrid] }⟩
  · rw [hgrid]
    exact hloc.abs_sub_le
  · intro n hn
    rw [← hgrid, hn] at hloc
    exact hloc.eq_of_natCast

end ServoBus.Double
