import ServoBus.Proofs.Double.Reciprocal
import ServoBus.Proofs.Double.Whole
import ServoBus.Ratio.Convergent

/-!
# The expansion of a double

A double that is not negative has the whole part of the number that it stands for, if that is below
`2 ^ 63`, and leaves exactly what the number leaves. Only the reciprocal of that is rounded, and it
is at least one.
-/

namespace ServoBus.Double

open Float.Model Float.Model.UnpackedFloat

theorem value?_largest : value? 9223372036854775808 = some (2 ^ 63) := by
  have h : unpacked 9223372036854775808 = .finite .positive (2 ^ 52) 11 (by decide) := rfl
  rw [value?, h]
  norm_num [unpackedValue?, Sign.apply]

theorem value?_smallest : value? (-9223372036854775808) = some (-2 ^ 63) := by
  have h : unpacked (-9223372036854775808) = .finite .negative (2 ^ 52) 11 (by decide) := rfl
  rw [value?, h]
  norm_num [unpackedValue?, Sign.apply]

theorem unpacked_noise :
    unpacked 2147483647 = .finite .positive (2147483647 * 2 ^ 22) (-22) (by decide) := rfl

theorem value?_noise : value? 2147483647 = some 2147483647 := by
  rw [value?, unpacked_noise]
  norm_num [unpackedValue?, Sign.apply]

variable {x : Float} {p : ℚ}

theorem whole?_eq (hp : value? x = some p) (h0 : 0 ≤ p) (hlt : p < 2 ^ 63) :
    Float.expansion.whole? x = some ⌊p⌋ := by
  have hsmallest : -9223372036854775808 ≤ x :=
    (le_iff value?_smallest hp).2 ((neg_nonpos.2 (by positivity)).trans h0)
  have hlargest : x < 9223372036854775808 := (lt_iff hp value?_largest).2 hlt
  rw [← whole_eq hp h0 hlt]
  exact if_pos ⟨hsmallest, hlargest⟩

/-- A double that has a whole part stands for a number. -/
theorem exists_value_of_whole? {a : Int} (h0 : 0 ≤ x) (h : Float.expansion.whole? x = some a) :
    ∃ p, value? x = some p ∧ 0 ≤ p ∧ p < 2 ^ 63 ∧ a = ⌊p⌋ := by
  obtain ⟨⟨-, hlt⟩, -⟩ := Option.ite_none_right_eq_some.1 h
  obtain ⟨p, hp⟩ := exists_value_of_le_of_lt value?_zero h0 hlt
  have hp0 := (le_iff value?_zero hp).1 h0
  have hplt := (lt_iff hp value?_largest).1 hlt
  rw [whole?_eq hp hp0 hplt] at h
  exact ⟨p, hp, hp0, hplt, (Option.some.inj h).symm⟩

section Rest

variable (hp : value? x = some p) (h0 : 0 ≤ p) (hlt : p < 2 ^ 63)

include hp h0 hlt

theorem value?_floor : value? (Decimal.ofWhole ⌊p⌋) = some (⌊p⌋ : ℚ) :=
  value?_ofWhole (Int.floor_nonneg.2 h0) (Int.floor_lt.2 (by exact_mod_cast hlt))
    (representable_floor hp h0).1

theorem beq_floor_iff : (x == Decimal.ofWhole ⌊p⌋) = true ↔ Int.fract p = 0 := by
  rw [beq_iff hp (value?_floor hp h0 hlt), Int.fract, sub_eq_zero]

theorem value?_fract : value? (x - Decimal.ofWhole ⌊p⌋) = some (Int.fract p) := by
  refine value?_sub hp (value?_floor hp h0 hlt) (representable_floor hp h0).2 ?_
  change |Int.fract p| < 2 ^ 1024
  rw [abs_of_nonneg (Int.fract_nonneg p)]
  exact (Int.fract_lt_one p).trans (one_lt_pow₀ (by norm_num) (by norm_num))

theorem rest?_of_fract_eq_zero (h : Int.fract p = 0) : Float.expansion.rest? x ⌊p⌋ = none :=
  if_pos ((beq_floor_iff hp h0 hlt).2 h)

/-- What the whole part of a double leaves, if it leaves anything: its reciprocal, unless that is
large. -/
theorem rest?_cases (h : Int.fract p ≠ 0) :
    (Float.expansion.rest? x ⌊p⌋ = none ∧ 2 ^ 30 ≤ 1 / Int.fract p) ∨
      ∃ y v m, Float.expansion.rest? x ⌊p⌋ = some y ∧ value? y = some v ∧
        v ≤ 2147483647 ∧ Nearby (1 / Int.fract p) v m := by
  have hrest : Float.expansion.rest? x ⌊p⌋ =
      if 1 / (x - Decimal.ofWhole ⌊p⌋) > 2147483647 then none
      else some (1 / (x - Decimal.ofWhole ⌊p⌋)) :=
    if_neg fun hbeq => h ((beq_floor_iff hp h0 hlt).1 hbeq)
  have hpos : 0 < Int.fract p := lt_of_le_of_ne (Int.fract_nonneg p) (Ne.symm h)
  rw [hrest]
  rcases value?_one_div (value?_fract hp h0 hlt) hpos (Int.fract_lt_one p) with
    ⟨hinf, hlarge⟩ | ⟨v, m, hv, hnearby⟩
  · have hgt : 2147483647 < 1 / (x - Decimal.ofWhole ⌊p⌋) := by
      rw [lt_iff_compare, hinf, unpacked_noise]
      rfl
    rw [if_pos hgt]
    exact Or.inl ⟨rfl, (pow_le_pow_right₀ (by norm_num) (by norm_num)).trans hlarge⟩
  · have hiff := lt_iff value?_noise hv
    by_cases hgt : 2147483647 < v
    · rw [if_pos (hiff.2 hgt)]
      refine Or.inl ⟨rfl, ?_⟩
      have hnear := (mul_le_mul_of_nonneg_right (le_abs_self _) (by norm_num)).trans
        (hnearby.near.trans hnearby.le)
      have hinv : 0 < 1 / Int.fract p := one_div_pos.2 hpos
      generalize 1 / Int.fract p = q at hnear hinv ⊢
      norm_num at hnear ⊢
      linarith
    · rw [if_neg fun hlt' => hgt (hiff.1 hlt')]
      exact Or.inr ⟨_, v, m, rfl, hv, not_lt.1 hgt, hnearby⟩

end Rest

end ServoBus.Double
