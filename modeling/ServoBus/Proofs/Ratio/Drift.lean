import ServoBus.Proofs.Double.Reciprocal
import ServoBus.Ratio.Convergent

/-!
# How far rounding moves a continued fraction

A convergent and the number that is expanded next determine the number that the whole fraction
stands for. Each reciprocal is rounded and so moves that number a little, and the less the larger
the denominators are. What all of the steps to come can add is bounded by a potential, which falls
by what a step adds: the number never moves by more than one part in `2 ^ 53`, up to a slack that
takes up the rounding of the denominators themselves.
-/

namespace ServoBus

namespace Convergent

/-- The denominator of the fraction that goes on with a number. -/
def weight (c : Convergent) (v : ℚ) : ℚ := c.denominator * v + c.lastDenominator

/-- The fraction that goes on with a number. -/
def complete (c : Convergent) (v : ℚ) : ℚ := (c.numerator * v + c.lastNumerator) / c.weight v

@[simp] theorem weight_start (v : ℚ) : start.weight v = 1 := by
  simp [start, weight]

@[simp] theorem complete_start (v : ℚ) : start.complete v = v := by
  rw [complete, weight_start]
  simp [start]

/-- Two cross products that differ by one, up to the order. -/
theorem abs_cross {c : Convergent} (h : c.cross = 1 ∨ c.cross = -1) : |(c.cross : ℚ)| = 1 := by
  rcases h with h | h <;> simp [h]

theorem complete_sub_complete {c : Convergent} {v w : ℚ} (hv : c.weight v ≠ 0)
    (hw : c.weight w ≠ 0) :
    c.complete v - c.complete w = c.cross * (v - w) / (c.weight v * c.weight w) := by
  rw [complete, complete, div_sub_div _ _ hv hw, weight, weight, cross]
  congr 1
  push_cast
  ring

section Extend

variable (c : Convergent) {a : Int} {v : ℚ} (h : v - a ≠ 0)

include h

theorem weight_extend : (c.extend a).weight (1 / (v - a)) = c.weight v / (v - a) := by
  simp only [weight, extend]
  push_cast
  field_simp
  ring

/-- The reciprocal of what the whole part leaves goes on where the convergent is extended. -/
theorem complete_extend : (c.extend a).complete (1 / (v - a)) = c.complete v := by
  rw [complete, weight_extend c h, complete]
  simp only [extend]
  push_cast
  rw [div_div_eq_mul_div]
  congr 1
  field_simp
  ring

end Extend

end Convergent

namespace Drift

/-- What a step may move a fraction by, if what is left is given. -/
def potential (z : ℚ) : ℚ := min 1 (z + z ^ 2) + z / 2 ^ 48

theorem potential_nonneg {z : ℚ} (h : 0 ≤ z) : 0 ≤ potential z := by
  have hmin : 0 ≤ min 1 (z + z ^ 2) := le_min zero_le_one (by positivity)
  exact add_nonneg hmin (by positivity)

theorem potential_le {z : ℚ} (h : z ≤ 1) : potential z ≤ 1 + 1 / 2 ^ 48 := by
  have hmin : min 1 (z + z ^ 2) ≤ 1 := min_le_left _ _
  rw [potential]
  linarith

/-- The potential in terms of the reciprocal. -/
theorem potential_one_div {y : ℚ} (h : 0 < y) :
    potential (1 / y) * y ^ 2 = min (y ^ 2) (y + 1) + y / 2 ^ 48 := by
  have hmin : min 1 (1 / y + (1 / y) ^ 2) * y ^ 2 = min (y ^ 2) (y + 1) := by
    rw [min_mul_of_nonneg _ _ (sq_nonneg y), one_mul]
    congr 1
    field_simp
  have hslack : 1 / y / 2 ^ 48 * y ^ 2 = y / 2 ^ 48 := by
    field_simp
  rw [potential, add_mul, hmin, hslack]

section Nearby

variable {y v : ℚ} {m : Nat}

theorem near_le (h : Double.Nearby y v m) : |v - y| ≤ m / 2 ^ 53 :=
  (le_div_iff₀ (by positivity)).2 h.near

/-- A reciprocal makes up for its own error and for those of the next step. Above two it does so by
itself, and below two the next step sees the number that this one has left. -/
theorem add_min_le (h : Double.Nearby y v m) :
    m + min 1 (Int.fract v + Int.fract v ^ 2) ≤ min (y ^ 2) (y + 1) + 5 / 2 ^ 53 := by
  have hone : min 1 (Int.fract v + Int.fract v ^ 2) ≤ 1 := min_le_left _ _
  have hm := h.le
  have hy : 1 ≤ y := (Nat.one_le_cast.2 h.pos).trans hm
  rw [← min_add_add_right]
  refine le_min ?_ (by linarith)
  rcases h.pos.eq_or_lt with rfl | htwo
  · obtain ⟨hlow, hhigh⟩ := abs_le.1 (near_le h)
    rw [Nat.cast_one] at *
    rcases lt_or_ge v 2 with hv | hv
    · have hfract : Int.fract v = v - 1 := by
        have hfloor : ⌊v⌋ = 1 := by
          rw [Int.floor_eq_iff]
          exact ⟨by simpa using h.le_rounded, by norm_num; linarith⟩
        rw [Int.fract, hfloor, Int.cast_one]
      rw [hfract]
      have hle : min 1 (v - 1 + (v - 1) ^ 2) ≤ v - 1 + (v - 1) ^ 2 := min_le_right _ _
      have hsum : v + y ≤ 5 := by linarith
      nlinarith
    · nlinarith
  · have htwo : (2 : ℚ) ≤ m := by exact_mod_cast htwo
    nlinarith

theorem step_le (h : Double.Nearby y v m) :
    m * (1 + 2 / 2 ^ 53) + potential (Int.fract v) * (1 + 2 / 2 ^ 53) ^ 2 ≤
      potential (1 / y) * y ^ 2 := by
  have hm : (1 : ℚ) ≤ m := Nat.one_le_cast.2 h.pos
  have hy : 0 < y := by linarith [h.le]
  have hfloor : (m : ℚ) ≤ ⌊v⌋ := by
    exact_mod_cast Int.le_floor.2 (by exact_mod_cast h.le_rounded)
  have hsplit := Int.fract_add_floor v
  have hnear := (abs_le.1 (near_le h)).2
  have hlt := h.lt
  have hmin := add_min_le h
  have hone : min 1 (Int.fract v + Int.fract v ^ 2) ≤ 1 := min_le_left _ _
  have hfract_le := (Int.fract_lt_one v).le
  rw [potential_one_div hy, potential]
  generalize min 1 (Int.fract v + Int.fract v ^ 2) = g at *
  generalize min (y ^ 2) (y + 1) = b at *
  norm_num at hnear hmin ⊢
  linarith

/-- What a step adds, the potential loses. -/
theorem potential_step (h : Double.Nearby y v m) {s w : ℚ} (hs : 0 < s)
    (hw : (1 - 1 / 2 ^ 53) * s ≤ w) :
    m / (w * s) + potential (Int.fract v) / w ^ 2 ≤ potential (1 / y) * y ^ 2 / s ^ 2 := by
  have hw0 : 0 < w := lt_of_lt_of_le (mul_pos (by norm_num) hs) hw
  have hratio : s / w ≤ 1 + 2 / 2 ^ 53 := by
    rw [div_le_iff₀ hw0]
    refine le_trans ?_ (mul_le_mul_of_nonneg_left hw (by norm_num))
    norm_num
    linarith
  have hpos : 0 < s / w := div_pos hs hw0
  have hpot := potential_nonneg (Int.fract_nonneg v)
  have hm : m / (w * s) = m * (s / w) / s ^ 2 := by
    field_simp
  have hp : potential (Int.fract v) / w ^ 2 = potential (Int.fract v) * (s / w) ^ 2 / s ^ 2 := by
    field_simp
  rw [hm, hp, ← add_div]
  gcongr
  refine le_trans ?_ (step_le h)
  gcongr

section Weight

variable {c : Convergent} (hden : 0 ≤ c.denominator)

include hden

/-- The denominator of a fraction moves with the number that the fraction goes on with. -/
theorem weight_le (h : Double.Nearby y v m) (hlast : 0 ≤ c.lastDenominator) :
    (1 - 1 / 2 ^ 53) * c.weight y ≤ c.weight v := by
  have hden : (0 : ℚ) ≤ c.denominator := Int.cast_nonneg hden
  have hlast : (0 : ℚ) ≤ c.lastDenominator := Int.cast_nonneg hlast
  have hv : y - y / 2 ^ 53 ≤ v := by
    have hlow := (abs_le.1 (near_le h)).1
    have hle : m / 2 ^ 53 ≤ y / 2 ^ 53 := div_le_div_of_nonneg_right h.le (by norm_num)
    linarith
  calc (1 - 1 / 2 ^ 53) * c.weight y
      ≤ c.denominator * (y - y / 2 ^ 53) + c.lastDenominator := by
        rw [Convergent.weight]
        norm_num
        linarith
    _ ≤ c.weight v := add_le_add_left (mul_le_mul_of_nonneg_left hv hden) _

/-- A fraction is moved by no more than the potential loses. -/
theorem move_le (h : Double.Nearby y v m) (hcross : c.cross = 1 ∨ c.cross = -1)
    (hlast : 0 ≤ c.lastDenominator) (hy : 0 < c.weight y) :
    |c.complete v - c.complete y| + potential (Int.fract v) / c.weight v ^ 2 / 2 ^ 53 ≤
      potential (1 / y) * y ^ 2 / c.weight y ^ 2 / 2 ^ 53 := by
  have hle := weight_le hden h hlast
  have hv : 0 < c.weight v := lt_of_lt_of_le (mul_pos (by norm_num) hy) hle
  have hmove : |c.complete v - c.complete y| ≤ m / (c.weight v * c.weight y) / 2 ^ 53 := by
    rw [Convergent.complete_sub_complete hv.ne' hy.ne', abs_div, abs_mul,
      Convergent.abs_cross hcross, one_mul, abs_of_pos (mul_pos hv hy), div_right_comm]
    exact div_le_div_of_nonneg_right (near_le h) (mul_pos hv hy).le
  have hstep := div_le_div_of_nonneg_right (potential_step h hy hle)
    (by norm_num : (0 : ℚ) ≤ 2 ^ 53)
  rw [add_div] at hstep
  linarith

end Weight

end Nearby

/-- All that the steps can add. -/
def total : ℚ := (1 + 1 / 2 ^ 48) / 2 ^ 53

theorem total_nonneg : 0 ≤ total := by
  rw [total]
  positivity

end Drift

/-- A convergent and the number that is expanded next, in the course of the expansion of a number
that is not negative. -/
structure Underway (c : Convergent) (v : ℚ) : Prop where
  cross : c.cross = 1 ∨ c.cross = -1
  numerator_nonneg : 0 ≤ c.numerator
  lastNumerator_nonneg : 0 ≤ c.lastNumerator
  denominator_nonneg : 0 ≤ c.denominator
  lastDenominator_nonneg : 0 ≤ c.lastDenominator
  nonneg : 0 ≤ v
  going : c = .start ∨ 1 ≤ c.denominator ∧ 1 ≤ v

namespace Underway

variable {c : Convergent} {v w : ℚ} {m : Nat}

theorem start (h : 0 ≤ v) : Underway .start v := by
  refine ⟨Or.inl Convergent.cross_start, ?_, ?_, ?_, ?_, h, Or.inl rfl⟩ <;> decide

theorem one_le_weight (h : Underway c v) : 1 ≤ c.weight v := by
  rcases h.going with rfl | ⟨hd, hv⟩
  · rw [Convergent.weight_start]
  · have hlast : (0 : ℚ) ≤ c.lastDenominator := Int.cast_nonneg h.lastDenominator_nonneg
    have hd : (1 : ℚ) ≤ c.denominator := by exact_mod_cast hd
    rw [Convergent.weight]
    nlinarith

theorem weight_pos (h : Underway c v) : 0 < c.weight v := one_pos.trans_le h.one_le_weight

theorem floor_nonneg (h : Underway c v) : 0 ≤ ⌊v⌋ := Int.floor_nonneg.2 h.nonneg

theorem one_le_denominator_extend (h : Underway c v) : 1 ≤ (c.extend ⌊v⌋).denominator := by
  rcases h.going with rfl | ⟨hd, hv⟩
  · rw [Convergent.start_extend]
  · have hfloor : 1 ≤ ⌊v⌋ := Int.le_floor.2 (by exact_mod_cast hv)
    have hlast := h.lastDenominator_nonneg
    have hle : c.denominator ≤ c.denominator * ⌊v⌋ :=
      le_mul_of_one_le_right h.denominator_nonneg hfloor
    change 1 ≤ c.denominator * ⌊v⌋ + c.lastDenominator
    omega

theorem extend (h : Underway c v) (hw : 1 ≤ w) : Underway (c.extend ⌊v⌋) w where
  cross := by
    rw [Convergent.cross_extend]
    rcases h.cross with h | h <;> omega
  numerator_nonneg :=
    add_nonneg (mul_nonneg h.numerator_nonneg h.floor_nonneg) h.lastNumerator_nonneg
  lastNumerator_nonneg := h.numerator_nonneg
  denominator_nonneg :=
    add_nonneg (mul_nonneg h.denominator_nonneg h.floor_nonneg) h.lastDenominator_nonneg
  lastDenominator_nonneg := h.denominator_nonneg
  nonneg := zero_le_one.trans hw
  going := Or.inr ⟨h.one_le_denominator_extend, hw⟩

end Underway

/-- The fraction that goes on with a number has not moved far from another number, and the steps to
come leave it near that. -/
structure Drifts (target : ℚ) (c : Convergent) (v : ℚ) : Prop where
  underway : Underway c v
  near : |c.complete v - target| +
    Drift.potential (Int.fract v) / c.weight v ^ 2 / 2 ^ 53 ≤ Drift.total

namespace Drifts

variable {target : ℚ} {c : Convergent} {v w : ℚ} {m : Nat}

theorem start (h : 0 ≤ target) : Drifts target .start target := by
  refine ⟨.start h, ?_⟩
  have hle := Drift.potential_le (Int.fract_lt_one target).le
  rw [Convergent.complete_start, Convergent.weight_start, sub_self, abs_zero, one_pow, div_one,
    zero_add, Drift.total]
  gcongr

theorem abs_le_total (h : Drifts target c v) : |c.complete v - target| ≤ Drift.total := by
  have hpot := Drift.potential_nonneg (Int.fract_nonneg v)
  exact le_of_add_le_of_nonneg_left h.near (by positivity)

theorem extend (h : Drifts target c v) (hv : Int.fract v ≠ 0)
    (hw : Double.Nearby (1 / Int.fract v) w m) : Drifts target (c.extend ⌊v⌋) w := by
  have hm : (1 : ℚ) ≤ m := Nat.one_le_cast.2 hw.pos
  have hunder : Underway (c.extend ⌊v⌋) w := h.underway.extend (hm.trans hw.le_rounded)
  have hfract : 0 < Int.fract v := lt_of_le_of_ne (Int.fract_nonneg v) hv.symm
  have hweight : (c.extend ⌊v⌋).weight (1 / Int.fract v) = c.weight v / Int.fract v :=
    Convergent.weight_extend c hv
  have hcomplete : (c.extend ⌊v⌋).complete (1 / Int.fract v) = c.complete v :=
    Convergent.complete_extend c hv
  have hmove := Drift.move_le hunder.denominator_nonneg hw hunder.cross
    hunder.lastDenominator_nonneg (by rw [hweight]; exact div_pos h.underway.weight_pos hfract)
  have hpot : Drift.potential (1 / (1 / Int.fract v)) * (1 / Int.fract v) ^ 2 /
      (c.weight v / Int.fract v) ^ 2 = Drift.potential (Int.fract v) / c.weight v ^ 2 := by
    rw [one_div_one_div]
    field_simp
  rw [hweight, hcomplete, hpot] at hmove
  have htriangle := abs_sub_le ((c.extend ⌊v⌋).complete w) (c.complete v) target
  have hnear := h.near
  exact ⟨hunder, by linarith⟩

end Drifts

end ServoBus
