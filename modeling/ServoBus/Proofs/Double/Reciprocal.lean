import ServoBus.Proofs.Double.Arithmetic

/-!
# Reciprocals

The reciprocal of a double below one is computed with more places than a double has, so that it is
rounded once. It lies between a power of two and the next one, and so does what it is rounded to;
half a place is then that power divided by `2 ^ 53`.
-/

namespace ServoBus.Double

open Float.Model Float.Model.UnpackedFloat

/-- The quotient and the remainder of a division say where the exact quotient lies. -/
theorem locates_quotient (n : Nat) {d : Nat} (hd : 0 < d) :
    Locates (.ofMantissaAndAccuracy (n / d) (accuracyOfFraction (n % d) d)) ((n : ℚ) / d) := by
  have hd' : (0 : ℚ) < d := by exact_mod_cast hd
  have hn : (n : ℚ) / d = (n / d : ℕ) + ((n % d : ℕ) : ℚ) / d := by
    rw [div_eq_iff hd'.ne', add_mul, div_mul_cancel₀ _ hd'.ne']
    exact_mod_cast (Nat.div_add_mod' n d).symm
  have hlt : ((n % d : ℕ) : ℚ) / d < 1 := by
    rw [div_lt_one hd']
    exact_mod_cast Nat.mod_lt n hd
  rw [hn]
  generalize n / d = q, n % d = r at hlt ⊢
  rw [accuracyOfFraction]
  split
  · next h =>
    rw [h, Nat.cast_zero, zero_div, add_zero]
    exact locates_exact q
  · next h =>
    have hpos : (0 : ℚ) < r / d := div_pos (by exact_mod_cast Nat.pos_of_ne_zero h) hd'
    rcases lt_trichotomy (2 * r) d with hcmp | hcmp | hcmp
    · rw [compare_lt_iff_lt.2 hcmp]
      have hhalf : (r : ℚ) / d < 1 / 2 := by
        rw [div_lt_iff₀ hd']
        have : (2 * r : ℚ) < d := by exact_mod_cast hcmp
        linarith
      change (q : ℚ) < q + r / d ∧ (q : ℚ) + r / d < q + 1 / 2
      exact ⟨by linarith, by linarith⟩
    · rw [compare_eq_iff_eq.2 hcmp]
      have hhalf : (r : ℚ) / d = 1 / 2 := by
        rw [div_eq_iff hd'.ne']
        have : (2 * r : ℚ) = d := by exact_mod_cast hcmp
        linarith
      change (q : ℚ) + r / d = q + 1 / 2
      rw [hhalf]
    · rw [compare_gt_iff_gt.2 hcmp]
      have hhalf : 1 / 2 < (r : ℚ) / d := by
        rw [lt_div_iff₀ hd']
        have : (d : ℚ) < 2 * r := by exact_mod_cast hcmp
        linarith
      change (q : ℚ) + 1 / 2 < q + r / d ∧ (q : ℚ) + r / d < q + 1
      exact ⟨by linarith, by linarith⟩

/-- A number is rounded by half a place at most, as is seen from the power of two below it. -/
structure Nearby (p v : ℚ) (m : Nat) : Prop where
  pos : 1 ≤ m
  le : m ≤ p
  lt : p < 2 * m
  le_rounded : m ≤ v
  near : |v - p| * 2 ^ 53 ≤ m

/-- The numbers that are at least one are rounded well. -/
theorem Rounds.nearby {s : Sign} {p : ℚ} {t : Int} {r : Nat} {f : UnpackedFloat}
    (h : Rounds s p t r f) (ht : -52 ≤ t) :
    Nearby p (r * 2 ^ t) (2 ^ (52 + t).toNat) := by
  have hpos := two_zpow_pos t
  have hpow : ((2 ^ (52 + t).toNat : ℕ) : ℚ) = 2 ^ 52 * 2 ^ t := by
    rw [Nat.cast_pow, Nat.cast_ofNat, ← zpow_natCast, Int.toNat_of_nonneg (by omega),
      zpow_add₀ (by norm_num)]
    rfl
  have hge := h.ge.resolve_right (by omega)
  have hfull : (2 ^ 52 : ℚ) ≤ r := by exact_mod_cast h.full.resolve_right (by omega)
  have hnear := mul_le_mul_of_nonneg_right h.near hpos.le
  rw [← abs_of_pos hpos, ← abs_mul, abs_of_pos hpos, sub_mul, div_mul_cancel₀ _ hpos.ne'] at hnear
  refine ⟨Nat.one_le_two_pow, ?_, ?_, ?_, ?_⟩
  · rwa [hpow, ← le_div_iff₀ hpos]
  · rw [hpow, ← mul_assoc, ← div_lt_iff₀ hpos]
    exact h.lt.trans_eq (by norm_num)
  · rw [hpow]
    exact mul_le_mul_of_nonneg_right hfull hpos.le
  · rw [hpow]
    linarith

section Reciprocal

variable {m : Nat} {e : Int}

theorem log2_add_neg (hm : 0 < m) (hlt : (m : ℚ) * 2 ^ e < 1) : m.log2 + e < 0 := by
  have hlow : (2 ^ m.log2 : ℚ) ≤ m := by exact_mod_cast Nat.log2_self_le hm.ne'
  have hpow : (2 : ℚ) ^ (m.log2 + e) < 2 ^ (0 : Int) := by
    rw [zpow_add₀ (by norm_num), zpow_natCast, zpow_zero]
    exact (mul_le_mul_of_nonneg_right hlow (two_zpow_pos e).le).trans_lt hlt
  exact (zpow_lt_zpow_iff_right₀ (by norm_num)).1 hpow

/-- One is shifted up by as many places as the divisor has. -/
theorem divCore_one (hneg : m.log2 + e < 0) (m' : Nat) (hm' : m' = 2 ^ (53 + m.log2)) :
    divCore Format.binary64 (2 ^ 52) (-52) m e =
      (m' / m, -(m.log2 + e) - 53, accuracyOfFraction (m' % m) m) := by
  have htarget : Format.binary64.targetExponent
      (totalExponent (2 ^ 52) (-52) - totalExponent m e) = -(m.log2 + e) - 53 := by
    simp only [Format.targetExponent, totalExponent, Nat.log2_two_pow, Format.mantissaBits,
      Format.minExponent]
    norm_num
    omega
  have hmin : min (-52 - e) (-(m.log2 + e) - 53) = -(m.log2 + e) - 53 := by omega
  have hshift : (-52 - e - (-(m.log2 + e) - 53)).toNat = m.log2 + 1 := by omega
  have hone : 2 ^ 52 <<< (m.log2 + 1) = m' := by
    rw [Nat.shiftLeft_eq, ← pow_add, hm']
    congr 1
    omega
  rw [divCore, htarget, hmin, hshift, hone]

/-- The reciprocal of a double below one, before it is packed. -/
theorem rounds_div_one (hm : 0 < m) (hlt : (m : ℚ) * 2 ^ e < 1) :
    ∃ t r, -52 ≤ t ∧ Rounds .positive (1 / (m * 2 ^ e)) t r
      (UnpackedFloat.div Format.binary64 (.finite .positive (2 ^ 52) (-52) (by decide))
        (.finite .positive m e hm)) := by
  have hneg := log2_add_neg hm hlt
  have hm0 : (0 : ℚ) < m := by exact_mod_cast hm
  obtain ⟨n, hn⟩ : ∃ n, n = 2 ^ (53 + m.log2) := ⟨_, rfl⟩
  have hquotient : 2 ^ 52 ≤ n / m := by
    rw [Nat.le_div_iff_mul_le hm, hn, show 53 + m.log2 = 52 + (m.log2 + 1) by omega, pow_add]
    exact Nat.mul_le_mul_left _ Nat.lt_log2_self.le
  have hlog : 52 ≤ (n / m).log2 := (Nat.le_log2 (by omega)).2 hquotient
  have hexact : (n : ℚ) / m * 2 ^ (-(m.log2 + e) - 53 : Int) = 1 / (m * 2 ^ e) := by
    have hpow : (n : ℚ) * 2 ^ (-(m.log2 + e) - 53 : Int) = 2 ^ (-e) := by
      rw [hn, Nat.cast_pow, Nat.cast_ofNat, ← zpow_natCast, ← zpow_add₀ (by norm_num)]
      congr 1
      push_cast
      omega
    rw [div_mul_eq_mul_div, hpow, zpow_neg, one_div, mul_inv, div_eq_mul_inv, mul_comm]
  obtain ⟨r, hr⟩ := rounds_roundWithAccuracy .positive (locates_quotient n hm)
    (e := -(m.log2 + e) - 53) (by
      rw [gridExponent]
      omega)
  rw [hexact] at hr
  refine ⟨gridExponent (n / m) (-(m.log2 + e) - 53), r, ?_, ?_⟩
  · rw [gridExponent]
    omega
  · rw [UnpackedFloat.div, divCore_one hneg n hn]
    exact hr

end Reciprocal

theorem unpacked_one : unpacked 1 = .finite .positive (2 ^ 52) (-52) (by decide) := rfl

/-- The reciprocal of a double between zero and one: it is too large for a double, or rounded
well. -/
theorem value?_one_div {x : Float} {p : ℚ} (hp : value? x = some p) (h0 : 0 < p) (hlt : p < 1) :
    (unpacked (1 / x) = .infinity .positive ∧ 2 ^ 1023 ≤ 1 / p) ∨
      ∃ v m, value? (1 / x) = some v ∧ Nearby (1 / p) v m := by
  have hdiv : unpacked (1 / x) = unpacked ⟨Float.Model.pack
      (UnpackedFloat.div Format.binary64 (unpacked 1) (unpacked x))⟩ := rfl
  change _ ∨ ∃ v m, unpackedValue? (unpacked (1 / x)) = some v ∧ Nearby (1 / p) v m
  change unpackedValue? (unpacked x) = some p at hp
  rw [hdiv, unpacked_one]
  generalize unpacked x = f at hp
  match f with
  | .infinity _ | .notANumber => cases hp
  | .zero s =>
    cases hp
    exact absurd h0 (lt_irrefl 0)
  | .finite .negative m e hm =>
    rw [eq_of_unpackedValue?_negative hp] at h0
    linarith [magnitude_pos hm e]
  | .finite .positive m e hm =>
    obtain rfl := eq_of_unpackedValue?_positive hp
    obtain ⟨t, r, ht, hr⟩ := rounds_div_one hm hlt
    have hnearby := hr.nearby ht
    have hvalue : unpackedValue? _ = some ((r : ℚ) * 2 ^ t) := hr.value.trans (by simp [Sign.apply])
    rcases lt_or_ge ((r : ℚ) * 2 ^ t) (2 ^ 1024) with hsmall | hlarge
    · refine Or.inr ⟨_, _, ?_, hnearby⟩
      exact value?_pack hr.canonical hvalue
        (by rwa [abs_of_nonneg (mul_nonneg (Nat.cast_nonneg r) (two_zpow_pos t).le)])
    · refine Or.inl ⟨unpacked_pack_of_large hr.canonical hvalue hlarge, ?_⟩
      have hnear := (mul_le_mul_of_nonneg_right (le_abs_self _) (by norm_num)).trans
        (hnearby.near.trans hnearby.le)
      rw [show (2 : ℚ) ^ 1024 = 2 * 2 ^ 1023 from pow_succ' 2 1023] at hlarge
      have hpos : (0 : ℚ) < 1 / (m * 2 ^ e) := one_div_pos.2 h0
      generalize 1 / ((m : ℚ) * 2 ^ e) = q, (2 : ℚ) ^ 1023 = b at hnear hpos hlarge ⊢
      linarith

end ServoBus.Double
