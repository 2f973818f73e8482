import ServoBus.Proofs.Ratio.Drift
import ServoBus.Proofs.Ratio.Reduced

/-!
# Fractions that are found

If the fraction that a double stands for is within the bound, then the loop runs like the algorithm
of Euclid on its two parts. A step of the loop takes a quotient that the algorithm could take as
well, as long as the fraction has moved by less than fractions of such denominators are apart. The
loop finds the fraction, and then one of two things can happen: nothing is left, or what is left is
rounding, and its whole part is so large that the bound is passed.

Both need room between the bound and the precision of doubles. Without it a bound that is large lets
a further convergent in, which is not the number any more.
-/

namespace ServoBus

/-- A fraction in lowest terms that a loop can find. -/
structure Findable (n d : Int) (bound : Nat) : Prop where
  numerator_nonneg : 0 ≤ n
  numerator_le : n ≤ 2147483648
  denominator_pos : 0 < d
  denominator_le : d ≤ bound
  coprime : IsCoprime n d
  room : Drift.total * (d * (d + bound)) < 1

/-- The remainders of the algorithm of Euclid, when it has taken the quotients of a convergent. -/
structure Combines (n d : Int) (c : Convergent) (s t : Int) : Prop where
  numerator : s * c.numerator + t * c.lastNumerator = n
  denominator : s * c.denominator + t * c.lastDenominator = d

namespace Combines

variable {n d s t a : Int} {c : Convergent} {v : ℚ}

theorem start : Combines n d .start n d := by
  constructor <;> simp [Convergent.start]

theorem extend (h : Combines n d c s t) (a : Int) :
    Combines n d (c.extend a) t (s - t * a) := by
  constructor
  · rw [← h.numerator, Convergent.extend]
    ring
  · rw [← h.denominator, Convergent.extend]
    ring

/-- The remainders tell how far a fraction is from the one that is looked for. -/
theorem abs_sub_eq (h : Combines n d c s t) (hcross : c.cross = 1 ∨ c.cross = -1) (hd : 0 < d)
    (hw : 0 < c.weight v) :
    |(s : ℚ) - t * v| = |c.complete v - n / d| * (d * c.weight v) := by
  have hd : (0 : ℚ) < d := Int.cast_pos.2 hd
  have hidentity : (c.complete v - n / d) * (d * c.weight v) = -(c.cross * (s - t * v)) := by
    have hn : (n : ℚ) = s * c.numerator + t * c.lastNumerator := by exact_mod_cast h.numerator.symm
    have hd' : (d : ℚ) = s * c.denominator + t * c.lastDenominator := by
      exact_mod_cast h.denominator.symm
    rw [Convergent.complete, sub_mul, div_mul_eq_mul_div, div_mul_eq_mul_div, mul_left_comm,
      mul_div_assoc, mul_div_cancel_right₀ _ hw.ne', mul_left_comm, mul_div_cancel_left₀ _ hd.ne',
      Convergent.weight, Convergent.cross, hn]
    push_cast
    rw [hd']
    ring
  rw [← abs_of_pos (mul_pos hd hw), ← abs_mul, hidentity, abs_neg, abs_mul,
    Convergent.abs_cross hcross, one_mul]

theorem sub_mul_weight (h : Combines n d c s t) :
    (d : ℚ) - t * c.weight v = c.denominator * (s - t * v) := by
  have hd : (d : ℚ) = s * c.denominator + t * c.lastDenominator := by
    exact_mod_cast h.denominator.symm
  rw [hd, Convergent.weight]
  ring

/-- The next remainder in terms of what the whole part leaves. -/
theorem mul_weight_eq (h : Combines n d c s t) :
    ((s - t * ⌊v⌋ : Int) : ℚ) * c.weight v =
      (c.extend ⌊v⌋).denominator * (s - t * v) + d * Int.fract v := by
  have hd : (d : ℚ) = s * c.denominator + t * c.lastDenominator := by
    exact_mod_cast h.denominator.symm
  rw [hd, Convergent.weight, Convergent.extend, Int.fract]
  push_cast
  ring

end Combines

/-- A loop that has not found the fraction yet. -/
structure Approaches (n d : Int) (c : Convergent) (v : ℚ) (s t : Int) : Prop where
  drifts : Drifts (n / d) c v
  combines : Combines n d c s t
  denominator_le : c.denominator ≤ d
  ne_zero : t ≠ 0

namespace Findable

variable {n d : Int} {bound : Nat} {c : Convergent} {v w : ℚ} {s t : Int} {m : Nat}

theorem cast_denominator_pos (h : Findable n d bound) : (0 : ℚ) < d :=
  Int.cast_pos.2 h.denominator_pos

/-- Twice the square of the denominator is within the precision. -/
theorem two_mul_lt (h : Findable n d bound) : Drift.total * (d * (2 * d)) < 1 := by
  have hd := h.cast_denominator_pos
  have hle : (d : ℚ) ≤ bound := by exact_mod_cast h.denominator_le
  have htotal := Drift.total_nonneg
  refine lt_of_le_of_lt ?_ h.room
  gcongr
  linarith

theorem denominator_lt (h : Findable n d bound) : d < 2 ^ 26 := by
  by_contra hge
  have hge : (2 ^ 26 : ℚ) ≤ d := by exact_mod_cast not_lt.1 hge
  have hlt := h.two_mul_lt
  have hmul : (2 ^ 26 : ℚ) * (2 * 2 ^ 26) ≤ d * (2 * d) := by gcongr
  rw [Drift.total] at hlt
  norm_num at hlt hmul
  linarith

section Approaches

variable (h : Findable n d bound) (ha : Approaches n d c v s t)

include h ha

theorem abs_sub_le : |(s : ℚ) - t * v| ≤ Drift.total * (d * c.weight v) := by
  have hweight := ha.drifts.underway.weight_pos
  rw [ha.combines.abs_sub_eq ha.drifts.underway.cross h.denominator_pos hweight]
  have hscale := (mul_pos h.cast_denominator_pos hweight).le
  exact mul_le_mul_of_nonneg_right ha.drifts.abs_le_total hscale

/-- A denominator that is not larger than the one that is looked for takes less than half a unit
out of the precision. -/
theorem mul_abs_sub_le {q : Int} (hq : 0 ≤ q) (hqd : q ≤ d) :
    q * |(s : ℚ) - t * v| ≤ c.weight v / 2 := by
  have hweight := ha.drifts.underway.weight_pos
  have hq : (0 : ℚ) ≤ q := Int.cast_nonneg hq
  have hqd : (q : ℚ) ≤ d := Int.cast_le.2 hqd
  have hd := h.cast_denominator_pos
  calc q * |(s : ℚ) - t * v| ≤ d * (Drift.total * (d * c.weight v)) := by
        gcongr
        exact h.abs_sub_le ha
    _ = Drift.total * (d * (2 * d)) * (c.weight v / 2) := by ring
    _ ≤ 1 * (c.weight v / 2) := by
        gcongr
        exact h.two_mul_lt.le
    _ = c.weight v / 2 := one_mul _

theorem one_le : 1 ≤ t ∧ c.weight v ≤ 2 * d := by
  have hweight := ha.drifts.underway.one_le_weight
  have hd := h.cast_denominator_pos
  have hden := ha.drifts.underway.denominator_nonneg
  have hnear : |(d : ℚ) - t * c.weight v| ≤ c.weight v / 2 := by
    rw [ha.combines.sub_mul_weight, abs_mul, abs_of_nonneg (Int.cast_nonneg hden)]
    exact h.mul_abs_sub_le ha hden ha.denominator_le
  obtain ⟨hlow, hhigh⟩ := abs_le.1 hnear
  have hpos : 1 ≤ t := by
    by_contra hlt
    have hneg : (t : ℚ) ≤ -1 := by
      have := ha.ne_zero
      exact_mod_cast (by omega : t ≤ -1)
    nlinarith
  have hone : (1 : ℚ) ≤ t := by exact_mod_cast hpos
  exact ⟨hpos, by nlinarith⟩

/-- The loop takes no larger quotient than the algorithm of Euclid can. -/
theorem floor_le : ⌊v⌋ ≤ s := by
  obtain ⟨hone, hweight⟩ := h.one_le ha
  have hone : (1 : ℚ) ≤ t := by exact_mod_cast hone
  have hd := h.cast_denominator_pos
  have hv := ha.drifts.underway.nonneg
  have htotal := Drift.total_nonneg
  have hlt : |(s : ℚ) - t * v| < 1 := by
    refine (h.abs_sub_le ha).trans_lt (lt_of_le_of_lt ?_ h.two_mul_lt)
    gcongr
  have hlow := (abs_lt.1 hlt).1
  have hfloor := Int.floor_le v
  have hlt' : ((⌊v⌋ : ℚ)) < s + 1 := by nlinarith
  exact Int.lt_add_one_iff.1 (by exact_mod_cast hlt')

theorem extend_le :
    (c.extend ⌊v⌋).numerator ≤ n ∧ (c.extend ⌊v⌋).denominator ≤ d := by
  obtain ⟨hone, -⟩ := h.one_le ha
  have hs := h.floor_le ha
  have hunder := ha.drifts.underway
  rw [← ha.combines.numerator, ← ha.combines.denominator]
  constructor
  · refine add_le_add ?_ (le_mul_of_one_le_left hunder.lastNumerator_nonneg hone)
    rw [mul_comm]
    exact mul_le_mul_of_nonneg_right hs hunder.numerator_nonneg
  · refine add_le_add ?_ (le_mul_of_one_le_left hunder.lastDenominator_nonneg hone)
    rw [mul_comm]
    exact mul_le_mul_of_nonneg_right hs hunder.denominator_nonneg

/-- The parts of the next convergent are not larger than those of the fraction, so that they fit. -/
theorem extend?_eq : c.extend? bound ⌊v⌋ = some (c.extend ⌊v⌋) := by
  obtain ⟨hn, hd⟩ := h.extend_le ha
  have hunder := ha.drifts.underway
  have hnle := h.numerator_le
  have hdlt := h.denominator_lt
  refine Convergent.extend?_eq_some_iff.2 ⟨?_, hd.trans h.denominator_le, ?_, rfl⟩
  · exact Convergent.mulAdd?_of_nonneg (mul_nonneg hunder.denominator_nonneg hunder.floor_nonneg)
      hunder.lastDenominator_nonneg (hd.trans_lt (by omega))
  · exact Convergent.mulAdd?_of_nonneg (mul_nonneg hunder.numerator_nonneg hunder.floor_nonneg)
      hunder.lastNumerator_nonneg (hn.trans_lt (by omega))

/-- As long as the fraction is not found, more than rounding is left. -/
theorem one_le_mul_fract (hmiss : s - t * ⌊v⌋ ≠ 0) : 1 ≤ 2 * d * Int.fract v := by
  have hweight := ha.drifts.underway.one_le_weight
  have hden : 0 ≤ (c.extend ⌊v⌋).denominator :=
    zero_le_one.trans ha.drifts.underway.one_le_denominator_extend
  have hone : (1 : ℚ) ≤ |((s - t * ⌊v⌋ : Int) : ℚ)| := by
    exact_mod_cast Int.one_le_abs hmiss
  have hleft : 0 ≤ d * Int.fract v := mul_nonneg h.cast_denominator_pos.le (Int.fract_nonneg v)
  have hle : c.weight v ≤ c.weight v / 2 + d * Int.fract v :=
    calc c.weight v ≤ |((s - t * ⌊v⌋ : Int) : ℚ)| * c.weight v :=
          le_mul_of_one_le_left (by linarith) hone
      _ = |(c.extend ⌊v⌋).denominator * (s - t * v) + d * Int.fract v| := by
          rw [← ha.combines.mul_weight_eq, abs_mul, abs_of_pos ha.drifts.underway.weight_pos]
      _ ≤ (c.extend ⌊v⌋).denominator * |(s : ℚ) - t * v| + d * Int.fract v := by
          refine (abs_add_le _ _).trans (add_le_add ?_ (abs_of_nonneg hleft).le)
          rw [abs_mul, abs_of_nonneg (Int.cast_nonneg hden)]
      _ ≤ c.weight v / 2 + d * Int.fract v :=
          add_le_add_left (h.mul_abs_sub_le ha hden (h.extend_le ha).2) _
  linarith

/-- When the fraction is found, the convergent has its two parts. -/
theorem extend_eq_of_hit (hhit : s - t * ⌊v⌋ = 0) :
    (c.extend ⌊v⌋).numerator = n ∧ (c.extend ⌊v⌋).denominator = d := by
  obtain ⟨hn, hd⟩ := ha.combines.extend ⌊v⌋
  rw [hhit, zero_mul, add_zero] at hn hd
  have hunit : IsUnit t :=
    h.coprime.isUnit_of_dvd' (Dvd.intro _ hn) (Dvd.intro _ hd)
  obtain rfl : t = 1 := by
    have hone := (h.one_le ha).1
    rcases Int.isUnit_iff.1 hunit with ht | ht <;> omega
  exact ⟨by rw [← hn, one_mul], by rw [← hd, one_mul]⟩

theorem approaches_extend (hmiss : s - t * ⌊v⌋ ≠ 0) (hw : Double.Nearby (1 / Int.fract v) w m) :
    Approaches n d (c.extend ⌊v⌋) w t (s - t * ⌊v⌋) := by
  have hone := h.one_le_mul_fract ha hmiss
  have hfract : Int.fract v ≠ 0 := by
    intro hzero
    rw [hzero] at hone
    norm_num at hone
  exact ⟨ha.drifts.extend hfract hw, ha.combines.extend _, (h.extend_le ha).2, hmiss⟩

end Approaches

section Found

variable (h : Findable n d bound) (hd : Drifts (n / d) c v) (hn : c.numerator = n)
  (hden : c.denominator = d)

include h hd hn hden

/-- When the fraction is found, it has moved by one part of its denominators exactly, which is
little. -/
theorem lt_weight : (d : ℚ) + bound < c.weight v := by
  have hweight := hd.underway.weight_pos
  have hd0 := h.cast_denominator_pos
  have hcombines : Combines n d c 1 0 := by
    constructor
    · rw [hn, one_mul, zero_mul, add_zero]
    · rw [hden, one_mul, zero_mul, add_zero]
  have hfar : 1 ≤ Drift.total * (d * c.weight v) := by
    have habs := hcombines.abs_sub_eq hd.underway.cross h.denominator_pos hweight
    rw [Int.cast_zero, zero_mul, sub_zero, Int.cast_one, abs_one] at habs
    rw [habs]
    exact mul_le_mul_of_nonneg_right hd.abs_le_total (by positivity)
  by_contra hle
  have htotal := Drift.total_nonneg
  have hmul : Drift.total * (d * c.weight v) ≤ Drift.total * (d * (d + bound)) := by
    gcongr
    exact not_lt.1 hle
  exact absurd (hfar.trans hmul) (not_le.2 h.room)

/-- Rounding that is left then has a quotient that passes the bound. -/
theorem extend?_eq_none : c.extend? bound ⌊v⌋ = none := by
  have hlarge := h.lt_weight hd hn hden
  refine Option.eq_none_iff_forall_ne_some.2 fun c' hc' => ?_
  have hle := Convergent.denominator_le_of_extend? hc'
  rw [Convergent.eq_extend_of_extend? hc', Convergent.extend] at hle
  have hle : (c.denominator : ℚ) * ⌊v⌋ + c.lastDenominator ≤ bound := by exact_mod_cast hle
  have hmul : (d : ℚ) * v ≤ d * (⌊v⌋ + 1) :=
    mul_le_mul_of_nonneg_left (Int.lt_floor_add_one v).le h.cast_denominator_pos.le
  rw [Convergent.weight, hden] at hlarge
  rw [hden] at hle
  linarith

end Found

/-- Nothing that is left when the fraction is found is taken in. -/
theorem stops_of_hit (h : Findable n d bound) {y : Float} (hv : Double.value? y = some v)
    (hlt : v < 2 ^ 63) (ha : Approaches n d c v s t) (hhit : s - t * ⌊v⌋ = 0) :
    ∀ z ∈ Float.expansion.rest? y ⌊v⌋, Float.expansion.Stops bound (c.extend ⌊v⌋) z := by
  intro z hz
  have h0 := ha.drifts.underway.nonneg
  by_cases hfract : Int.fract v = 0
  · rw [Double.rest?_of_fract_eq_zero hv h0 hlt hfract] at hz
    cases hz
  · rcases Double.rest?_cases hv h0 hlt hfract with ⟨hnone, -⟩ | ⟨z', w, m, hz', hw, hle, hnear⟩
    · rw [hnone] at hz
      cases hz
    · rw [hz'] at hz
      cases hz
      intro b hb
      obtain ⟨hn, hd⟩ := h.extend_eq_of_hit ha hhit
      have hdrifts := ha.drifts.extend hfract hnear
      rw [Double.whole?_eq hw hdrifts.underway.nonneg (lt_of_le_of_lt hle (by norm_num))] at hb
      cases hb
      exact h.extend?_eq_none hdrifts hn hd

/-- Something is left as long as the fraction is not found, and it is not taken for rounding. -/
theorem exists_rest_of_miss (h : Findable n d bound) {y : Float} (hv : Double.value? y = some v)
    (hlt : v < 2 ^ 63) (ha : Approaches n d c v s t) (hmiss : s - t * ⌊v⌋ ≠ 0) :
    ∃ z w, Float.expansion.rest? y ⌊v⌋ = some z ∧ Double.value? z = some w ∧ w < 2 ^ 63 ∧
      Approaches n d (c.extend ⌊v⌋) w t (s - t * ⌊v⌋) := by
  have hone := h.one_le_mul_fract ha hmiss
  have hd0 := h.cast_denominator_pos
  have hd : (d : ℚ) ≤ 2 ^ 26 := by exact_mod_cast h.denominator_lt.le
  have hpos : 0 < Int.fract v := pos_of_mul_pos_right (one_pos.trans_le hone) (by positivity)
  rcases Double.rest?_cases hv ha.drifts.underway.nonneg hlt hpos.ne' with
    ⟨-, hlarge⟩ | ⟨z, w, m, hz, hw, hle, hnear⟩
  · rw [le_div_iff₀ hpos] at hlarge
    have hle : 2 * d * Int.fract v ≤ 2 * 2 ^ 26 * Int.fract v := by gcongr
    norm_num at hlarge hle
    linarith
  · exact ⟨z, w, hz, hw, lt_of_le_of_lt hle (by norm_num), h.approaches_extend ha hmiss hnear⟩

/-- The loop has come to a number that it goes on with, or the fraction is found. -/
def Course (n d : Int) (bound : Nat) (c : Convergent) (next : Option Float) : Prop :=
  (∃ y v s t, next = some y ∧ Double.value? y = some v ∧ v < 2 ^ 63 ∧ Approaches n d c v s t) ∨
  (c.numerator = n ∧ c.denominator = d ∧ ∀ y ∈ next, Float.expansion.Stops bound c y)

theorem course_update (h : Findable n d bound) {c' : Convergent} {y : Float} {a : Int}
    (hc : Course n d bound c (some y)) (ha : Float.expansion.whole? y = some a)
    (hc' : c.extend? bound a = some c') :
    Course n d bound c' (Float.expansion.rest? y a) := by
  rcases hc with ⟨y, v, s, t, ⟨⟩, hv, hlt, happ⟩ | ⟨-, -, hstop⟩
  · rw [Double.whole?_eq hv happ.drifts.underway.nonneg hlt] at ha
    cases ha
    obtain rfl := Convergent.eq_extend_of_extend? hc'
    by_cases hhit : s - t * ⌊v⌋ = 0
    · obtain ⟨hn, hd⟩ := h.extend_eq_of_hit happ hhit
      exact Or.inr ⟨hn, hd, h.stops_of_hit hv hlt happ hhit⟩
    · obtain ⟨z, w, hz, hw, hwlt, hnext⟩ := h.exists_rest_of_miss hv hlt happ hhit
      exact Or.inl ⟨z, w, t, s - t * ⌊v⌋, hz, hw, hwlt, hnext⟩
  · rw [hstop y rfl a ha] at hc'
    cases hc'

theorem course (h : Findable n d bound) {x : Float} (hx : Double.value? x = some ((n : ℚ) / d))
    {as : List Int} {next : Option Float} (hu : Float.expansion.Updates bound x as c next) :
    Course n d bound c next := by
  induction hu with
  | start =>
    have hn : (0 : ℚ) ≤ n := Int.cast_nonneg h.numerator_nonneg
    have hnle : (n : ℚ) ≤ 2147483648 := by exact_mod_cast h.numerator_le
    have hd : (1 : ℚ) ≤ d := by exact_mod_cast h.denominator_pos
    refine Or.inl ⟨x, n / d, n, d, rfl, hx, ?_, .start (div_nonneg hn (by linarith)), .start,
      h.denominator_pos.le, h.denominator_pos.ne'⟩
    exact ((div_le_self hn hd).trans hnle).trans_lt (by norm_num)
  | update _ ha hd ih => exact h.course_update ih ha hd

/-- The loop ends with the fraction. -/
theorem eq_of_ends (h : Findable n d bound) {x : Float}
    (hx : Double.value? x = some ((n : ℚ) / d)) (hends : Float.expansion.Ends bound x c) :
    c.numerator = n ∧ c.denominator = d := by
  obtain ⟨as, next, hu, hstop⟩ := hends
  rcases h.course hx hu with ⟨y, v, s, t, hy, hv, hlt, happ⟩ | ⟨hn, hd, -⟩
  · have hwhole := Double.whole?_eq hv happ.drifts.underway.nonneg hlt
    have hnone := hstop y hy _ hwhole
    rw [h.extend?_eq happ] at hnone
    cases hnone
  · exact ⟨hn, hd⟩

end Findable

/-- A multiple of a power of two below another one is apart from it by that power. -/
theorem add_two_pow_le {k m : Nat} (hm : m < 2 ^ 32) (h : 2 ^ k * (2 ^ k + m) < 2 ^ 53) :
    2 ^ k * (2 ^ k + m) + 2 ^ 16 ≤ 2 ^ 53 := by
  rcases Nat.lt_or_ge k 16 with hsmall | hlarge
  · have hpow : 2 ^ k ≤ 2 ^ 15 := Nat.pow_le_pow_right (by decide) (by omega)
    calc 2 ^ k * (2 ^ k + m) + 2 ^ 16 ≤ 2 ^ 15 * (2 ^ 15 + 2 ^ 32) + 2 ^ 16 :=
          Nat.add_le_add_right (Nat.mul_le_mul hpow (Nat.add_le_add hpow hm.le)) _
      _ ≤ 2 ^ 53 := by decide
  · have hk : k ≤ 53 := by
      refine ((Nat.pow_lt_pow_iff_right (by decide)).1 (lt_of_le_of_lt ?_ h)).le
      exact Nat.le_mul_of_pos_right _ (by positivity)
    have hsplit : 2 ^ 53 = 2 ^ k * 2 ^ (53 - k) := by
      rw [← pow_add, Nat.add_sub_cancel' hk]
    have hlt : 2 ^ k + m < 2 ^ (53 - k) := by
      rw [hsplit] at h
      exact lt_of_mul_lt_mul_left h (Nat.zero_le _)
    calc 2 ^ k * (2 ^ k + m) + 2 ^ 16 ≤ 2 ^ k * (2 ^ k + m) + 2 ^ k :=
          Nat.add_le_add_left (Nat.pow_le_pow_right (by decide) hlarge) _
      _ = 2 ^ k * (2 ^ k + m + 1) := by ring
      _ ≤ 2 ^ k * 2 ^ (53 - k) := Nat.mul_le_mul_left _ hlt
      _ = 2 ^ 53 := hsplit.symm

/-- The room that a power of two leaves within the precision of doubles takes up the slack. -/
theorem Drift.total_mul_lt {k m : Nat} (hm : m < 2 ^ 32) (h : 2 ^ k * (2 ^ k + m) < 2 ^ 53) :
    total * ((2 ^ k : ℚ) * (2 ^ k + m)) < 1 := by
  have hle : (2 ^ k : ℚ) * (2 ^ k + m) + 2 ^ 16 ≤ 2 ^ 53 := by exact_mod_cast add_two_pow_le hm h
  generalize (2 ^ k : ℚ) * (2 ^ k + m) = q at hle
  rw [total]
  norm_num at hle ⊢
  linarith

namespace Ratio

variable {r : Ratio} {bound : Nat} {k : Nat} {x : Float}

theorem Reduced.findable (h : r.Reduced bound) (hbound : bound < 2 ^ 32)
    (hk : r.denominator.toNat = 2 ^ k) (hroom : 2 ^ k * (2 ^ k + bound) < 2 ^ 53) :
    Findable |r.numerator.toInt| r.denominator.toNat bound where
  numerator_nonneg := abs_nonneg _
  numerator_le := abs_le.2 ⟨by simpa using r.numerator.le_toInt, r.numerator.toInt_lt.le⟩
  denominator_pos := Int.natCast_pos.2 h.pos
  denominator_le := Int.ofNat_le.2 h.le
  coprime := by
    rw [Int.isCoprime_iff_gcd_eq_one, Int.gcd, Int.natAbs_abs, Int.natAbs_natCast]
    exact h.coprime
  room := by
    rw [hk]
    exact_mod_cast Drift.total_mul_lt hbound hroom

/-- A double that is a ratio becomes that ratio. -/
theorem ofFloat?_of_value?
    (hx : Double.value? x = some ((r.numerator.toInt : ℚ) / r.denominator.toNat))
    (h : r.Reduced bound) (hbound : bound < 2 ^ 32) (hk : r.denominator.toNat = 2 ^ k)
    (hroom : 2 ^ k * (2 ^ k + bound) < 2 ^ 53) : ofFloat? x bound = some r := by
  have hpos : (0 : ℚ) < r.denominator.toNat := Nat.cast_pos.2 h.pos
  have habs : Double.value? x.abs =
      some (((|r.numerator.toInt| : Int) : ℚ) / ((r.denominator.toNat : Int) : ℚ)) := by
    rw [Double.value?_abs hx, abs_div, abs_of_pos hpos, Int.cast_abs, Int.cast_natCast]
  have h0 : 0 ≤ x.abs := zero_le_abs_of_isFinite (Double.isFinite_iff.2 ⟨_, hx⟩)
  obtain ⟨hn, hd⟩ := (h.findable hbound hk hroom).eq_of_ends habs
    (Expansion.ends_best Float.expansion_proper h0)
  have hnegative : x < 0 ↔ r.numerator.toInt < 0 := by
    rw [Double.lt_iff hx Double.value?_zero, div_lt_iff₀ hpos, zero_mul, Int.cast_lt_zero]
  refine ofFloat?_eq_some_iff.2 ⟨⟨Double.isFinite_iff.2 ⟨_, hx⟩, ?_⟩,
    ofExpansion?_eq_some_iff.2 ⟨?_, ?_, hd.symm⟩⟩
  · exact Nat.one_le_iff_ne_zero.1 (h.pos.trans h.le)
  · rw [hd]
    exact_mod_cast Nat.one_le_iff_ne_zero.1 h.pos
  · rw [hn]
    by_cases hneg : r.numerator.toInt < 0
    · rw [if_pos (decide_eq_true (hnegative.2 hneg)), abs_of_neg hneg, Int.neg_neg]
    · rw [if_neg (by simpa using mt hnegative.1 hneg), abs_of_nonneg (not_lt.1 hneg)]

/-- A decimal whose double is a ratio in lowest terms, with a power of two as its denominator, is
decoded to that ratio if the bound leaves room within the precision of doubles. -/
theorem decode_exact {text : String} {bound : UInt32} {x : Float} {r : Ratio} {k : Nat}
    (htext : ∀ c ∈ text.toList, c ≠ '/' ∧ c ≠ ':')
    (hx : Decimal.float? (Text.trimBlanks text.toList) = some x)
    (hvalue : Double.value? x = some ((r.numerator.toInt : ℚ) / r.denominator.toNat))
    (hr : r.Reduced bound.toNat) (hk : r.denominator.toNat = 2 ^ k)
    (hroom : 2 ^ k * (2 ^ k + bound.toNat) < 2 ^ 53) :
    (decode text bound).outcome = .ok r :=
  (decode_decimal_eq_ok_iff htext).2
    ⟨x, hx, ofFloat?_of_value? hvalue hr bound.toNat_lt hk hroom⟩

theorem decode_exact_negative :
    ∃ x, (∀ c ∈ "-1.5".toList, c ≠ '/' ∧ c ≠ ':') ∧
      Decimal.float? (Text.trimBlanks "-1.5".toList) = some x ∧ Double.value? x = some (-3 / 2) ∧
      Reduced ⟨-3, 2⟩ 100 ∧ 2 ^ 1 * (2 ^ 1 + 100) < 2 ^ 53 ∧
      (decode "-1.5" 100).outcome = .ok ⟨-3, 2⟩ := by
  have htext : ∀ c ∈ "-1.5".toList, c ≠ '/' ∧ c ≠ ':' := by simp
  have hvalue : (Decimal.float? (Text.trimBlanks "-1.5".toList)).bind Double.value? =
      some (-3 / 2) := by decide +kernel
  obtain ⟨x, hx, hvalue⟩ := Option.bind_eq_some_iff.1 hvalue
  have hreduced : Reduced ⟨-3, 2⟩ 100 := ⟨by decide, by decide, by decide⟩
  have hroom : 2 ^ 1 * (2 ^ 1 + 100) < 2 ^ 53 := by decide
  exact ⟨x, htext, hx, hvalue, hreduced, hroom,
    decode_exact htext hx hvalue hreduced (k := 1) rfl hroom⟩

/-- Without that room a further convergent is taken in. -/
theorem decode_not_exact :
    ¬∀ (text : String) (bound : UInt32) (x : Float) (r : Ratio) (k : Nat),
      (∀ c ∈ text.toList, c ≠ '/' ∧ c ≠ ':') →
      Decimal.float? (Text.trimBlanks text.toList) = some x →
      Double.value? x = some ((r.numerator.toInt : ℚ) / r.denominator.toNat) →
      r.Reduced bound.toNat → r.denominator.toNat = 2 ^ k → |r.numerator.toInt| ≤ 2147483647 →
      (decode text bound).outcome = .ok r := by
  intro h
  have hvalue : (Decimal.float? (Text.trimBlanks "1.99960310757160186767578125".toList)).bind
      Double.value? = some (134191093 / 67108864) := by decide +kernel
  obtain ⟨x, hx, hvalue⟩ := Option.bind_eq_some_iff.1 hvalue
  have hexact := h "1.99960310757160186767578125" 67837021 x ⟨134191093, 67108864⟩ 26 (by simp) hx
    hvalue ⟨by decide, by decide, by decide +kernel⟩ (by decide) (by decide)
  have hfurther : (decode "1.99960310757160186767578125" 67837021).outcome =
      .ok ⟨135647118, 67837021⟩ := outcome_decode_eq_ok_iff.2 (by decide +kernel)
  rw [hfurther] at hexact
  cases hexact

end Ratio

end ServoBus
