import ServoBus.Decimal.Whole
import ServoBus.Proofs.Double.Arithmetic

/-!
# Whole parts

The whole part of a double that is not negative is the largest whole number below it. It is a
double again, and so is what it leaves, since neither has more places than the double itself.
-/

namespace ServoBus.Double

open Float.Model Float.Model.UnpackedFloat

theorem roundToInt_positive (m : Nat) (e : Int) :
    roundToInt .positive m e = ⌊(m : ℚ) * 2 ^ e⌋ := by
  have hlocates (n k : ℕ) :
      (ExtendedMantissa.ofMantissaAndAccuracy n .exact >>> k).mantissa = ⌊(n : ℚ) / 2 ^ k⌋ := by
    have h := ((locates_exact n).shiftRight k).bounds
    exact (Int.floor_eq_iff.2 (by exact_mod_cast h)).symm
  rw [roundToInt, decreaseExponent]
  dsimp only
  rw [shiftToExponent]
  simp only [Sign.apply, hlocates]
  rcases le_total 0 e with he | he
  · obtain ⟨k, rfl⟩ := Int.eq_ofNat_of_zero_le he
    simp [Nat.shiftLeft_eq]
  · obtain ⟨k, rfl⟩ := Int.exists_eq_neg_ofNat he
    simp [div_eq_mul_inv]

variable {x : Float} {p : ℚ}

theorem toNat_toUInt64 (hp : value? x = some p) (h0 : 0 ≤ p) (hlt : p < 2 ^ 64) :
    (x.toUInt64.toNat : Int) = ⌊p⌋ := by
  change ((UInt64.ofNatClamp ((unpacked x).toInt 0 (UInt64.size - 1)).toNat).toNat : Int) = _
  change unpackedValue? (unpacked x) = some p at hp
  have hfloor : (unpacked x).toInt 0 (UInt64.size - 1) = ⌊p⌋ := by
    generalize unpacked x = f at hp
    match f with
    | .infinity _ | .notANumber => cases hp
    | .zero s =>
      cases hp
      simp [UnpackedFloat.toInt]
    | .finite .positive m e hm =>
      rw [eq_of_unpackedValue?_positive hp]
      exact roundToInt_positive m e
    | .finite .negative m e hm =>
      rw [eq_of_unpackedValue?_negative hp] at h0
      linarith [magnitude_pos hm e]
  have hnonneg : 0 ≤ ⌊p⌋ := Int.floor_nonneg.2 h0
  have hsize : ⌊p⌋ < 2 ^ 64 := Int.floor_lt.2 (by exact_mod_cast hlt)
  have hnat : ⌊p⌋.toNat < UInt64.size := by
    rw [show UInt64.size = 2 ^ 64 from rfl]
    omega
  rw [hfloor, UInt64.ofNatClamp, dif_pos hnat, UInt64.toNat_ofNatLT, Int.toNat_of_nonneg hnonneg]

theorem value?_zero : value? 0 = some 0 := rfl

theorem whole_eq (hp : value? x = some p) (h0 : 0 ≤ p) (hlt : p < 2 ^ 63) :
    Decimal.whole 64 x = ⌊p⌋ := by
  have hword := toNat_toUInt64 hp h0 (hlt.trans (by norm_num))
  have hneg : ¬ x < 0 := by
    rw [lt_iff hp value?_zero]
    exact not_lt.2 h0
  have hfloor : ⌊p⌋ < 2 ^ 63 := Int.floor_lt.2 (by exact_mod_cast hlt)
  rw [Decimal.whole, if_neg hneg, hword]
  simp only [Nat.pow_eq]
  push_cast
  omega

theorem value?_ofWhole {n : Int} (h0 : 0 ≤ n) (hlt : n < 2 ^ 63) (h : Representable n) :
    value? (Decimal.ofWhole n) = some (n : ℚ) := by
  have hword : ((UInt64.ofNat n.natAbs).toNat : Int) = n := by
    rw [UInt64.toNat_ofNat', Nat.mod_eq_of_lt (by omega), Int.natAbs_of_nonneg h0]
  have hmodel (w : UInt64) : w.toFloat =
      ⟨Float.Model.pack (UnpackedFloat.normalize Format.binary64 w.toNat 0 .positive)⟩ := rfl
  have hcast : (n : ℚ) = n * 2 ^ (0 : Int) := by rw [zpow_zero, mul_one]
  have habs : |(n : ℚ)| < 2 ^ 1024 := by
    rw [abs_of_nonneg (by exact_mod_cast h0)]
    have : (n : ℚ) < 2 ^ 63 := by exact_mod_cast hlt
    exact this.trans_le (pow_le_pow_right₀ (by norm_num) (by norm_num))
  rw [hcast] at h habs ⊢
  obtain ⟨hc, hv⟩ := exact_normalize h
  rw [Decimal.ofWhole, if_neg (by omega), hmodel, hword]
  exact value?_pack hc hv habs

/-- The whole part and the rest of a double. -/
theorem representable_floor (hp : value? x = some p) (h0 : 0 ≤ p) :
    Representable ⌊p⌋ ∧ Representable (p - ⌊p⌋) := by
  have hzero : Representable 0 := ⟨0, 0, by norm_num, by norm_num, by norm_num⟩
  have hc := canonical_unpacked x
  change unpackedValue? (unpacked x) = some p at hp
  generalize unpacked x = f at hp hc
  match f with
  | .infinity _ | .notANumber => cases hp
  | .zero s =>
    cases hp
    simpa using hzero
  | .finite .negative m e hm =>
    rw [eq_of_unpackedValue?_negative hp] at h0
    linarith [magnitude_pos hm e]
  | .finite .positive m e hm =>
    obtain ⟨hlt, hmin, -⟩ := hc
    obtain rfl := eq_of_unpackedValue?_positive hp
    rcases le_total 0 e with he | he
    · obtain ⟨k, rfl⟩ := Int.eq_ofNat_of_zero_le he
      have hfloor : ((⌊(m : ℚ) * 2 ^ (k : Int)⌋ : Int) : ℚ) = m * 2 ^ (k : Int) := by
        rw [zpow_natCast]
        exact_mod_cast congrArg (Int.cast (R := ℚ)) (Int.floor_natCast (R := ℚ) (m * 2 ^ k))
      rw [hfloor, sub_self]
      exact ⟨⟨m, k, by rw [Nat.abs_cast]; exact_mod_cast hlt, by omega, by simp⟩, hzero⟩
    · obtain ⟨k, rfl⟩ := Int.exists_eq_neg_ofNat he
      have hpow : (0 : ℚ) < 2 ^ k := by positivity
      have hvalue : (m : ℚ) * 2 ^ (-(k : Int)) * 2 ^ k = m := by
        rw [zpow_neg, zpow_natCast, inv_mul_cancel_right₀ hpow.ne']
      have hfloor := Int.floor_le ((m : ℚ) * 2 ^ (-(k : Int)))
      have hnonneg := Int.floor_nonneg.2 h0
      generalize ⌊(m : ℚ) * 2 ^ (-(k : Int))⌋ = n at hfloor hnonneg ⊢
      have hle : n * 2 ^ k ≤ (m : Int) := by
        have := mul_le_mul_of_nonneg_right hfloor hpow.le
        rw [hvalue] at this
        exact_mod_cast this
      have hle' : n ≤ n * 2 ^ k := le_mul_of_one_le_right hnonneg (one_le_pow₀ (by norm_num))
      refine ⟨⟨n, 0, abs_lt.2 ⟨by omega, by omega⟩, by norm_num, by simp⟩,
        ⟨m - n * 2 ^ k, -k, abs_lt.2 ⟨by omega, by omega⟩, by omega, ?_⟩⟩
      push_cast
      rw [sub_mul, zpow_neg, zpow_natCast, mul_assoc, mul_inv_cancel₀ hpow.ne', mul_one]

end ServoBus.Double
