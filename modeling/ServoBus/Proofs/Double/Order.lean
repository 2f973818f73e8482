import ServoBus.Proofs.Double.Packing

/-!
# The order of the doubles

Doubles are compared by their exponents first, which is right because significands are full. So
doubles that stand for numbers are ordered as these are.
-/

namespace ServoBus.Double

open Float.Model Float.Model.UnpackedFloat

/-- What a double is made of. -/
def unpacked (x : Float) : UnpackedFloat := x.toModel.unpack

/-- The number that a double stands for. -/
def value? (x : Float) : Option ℚ := unpackedValue? (unpacked x)

theorem canonical_unpacked (x : Float) : Canonical (unpacked x) := (canonical_unpack _).1

theorem bounded_unpacked (x : Float) : Bounded (unpacked x) := (canonical_unpack _).2

section Compare

variable {m m' : Nat} {e e' : Int} {hm : 0 < m} {hm' : 0 < m'} {s s' : Sign}

theorem lt_of_exponent_lt (hc : Canonical (.finite s m e hm))
    (hc' : Canonical (.finite s' m' e' hm')) (h : e < e') :
    (m : ℚ) * 2 ^ e < m' * 2 ^ e' := by
  obtain ⟨hlt, hmin, -⟩ := hc
  obtain ⟨-, -, hfull⟩ := hc'
  have hge : 2 ^ 52 ≤ m' := hfull.resolve_right (by omega)
  obtain ⟨k, rfl⟩ : ∃ k : ℕ, e' = e + 1 + k := ⟨(e' - e - 1).toNat, by omega⟩
  have hpos := two_zpow_pos e
  have hone : (1 : ℚ) ≤ 2 ^ k := one_le_pow₀ (by norm_num)
  have hm2 : (m : ℚ) < 2 * m' := by
    have : m < 2 * m' := by omega
    exact_mod_cast this
  rw [zpow_add₀ (by norm_num), zpow_add₀ (by norm_num), zpow_natCast, zpow_one]
  calc (m : ℚ) * 2 ^ e < 2 * m' * 2 ^ e := mul_lt_mul_of_pos_right hm2 hpos
    _ = m' * (2 ^ e * 2) * 1 := by ring
    _ ≤ m' * (2 ^ e * 2) * 2 ^ k := mul_le_mul_of_nonneg_left hone (by positivity)
    _ = m' * (2 ^ e * 2 * 2 ^ k) := by ring

theorem compare_magnitudes (hc : Canonical (.finite s m e hm))
    (hc' : Canonical (.finite s' m' e' hm')) :
    (compare e e').then (compare m m') = compare ((m : ℚ) * 2 ^ e) (m' * 2 ^ e') := by
  rcases lt_trichotomy e e' with h | rfl | h
  · rw [compare_lt_iff_lt.2 h, compare_lt_iff_lt.2 (lt_of_exponent_lt hc hc' h)]
    rfl
  · have hpos := two_zpow_pos e
    rw [compare_eq_iff_eq.2 rfl, Ordering.eq_then]
    rcases lt_trichotomy m m' with h | rfl | h
    · rw [compare_lt_iff_lt.2 h, compare_lt_iff_lt.2]
      exact mul_lt_mul_of_pos_right (by exact_mod_cast h) hpos
    · rw [compare_eq_iff_eq.2 rfl, compare_eq_iff_eq.2 rfl]
    · rw [compare_gt_iff_gt.2 h, compare_gt_iff_gt.2]
      exact mul_lt_mul_of_pos_right (by exact_mod_cast h) hpos
  · rw [compare_gt_iff_gt.2 h, compare_gt_iff_gt.2 (lt_of_exponent_lt hc' hc h)]
    rfl

theorem compare_neg (p q : ℚ) : compare (-p) (-q) = (compare p q).swap := by
  rcases lt_trichotomy p q with h | rfl | h
  · rw [compare_lt_iff_lt.2 h, compare_gt_iff_gt.2 (neg_lt_neg h)]
    rfl
  · rw [compare_eq_iff_eq.2 rfl, compare_eq_iff_eq.2 rfl]
    rfl
  · rw [compare_gt_iff_gt.2 h, compare_lt_iff_lt.2 (neg_lt_neg h)]
    rfl

theorem magnitude_pos (hm : 0 < m) (e : Int) : (0 : ℚ) < m * 2 ^ e :=
  mul_pos (by exact_mod_cast hm) (two_zpow_pos e)

theorem eq_of_unpackedValue?_positive {p : ℚ}
    (h : unpackedValue? (.finite .positive m e hm) = some p) : p = m * 2 ^ e :=
  (Option.some.inj h).symm.trans (by simp [Sign.apply])

theorem eq_of_unpackedValue?_negative {p : ℚ}
    (h : unpackedValue? (.finite .negative m e hm) = some p) : p = -(m * 2 ^ e) :=
  (Option.some.inj h).symm.trans (by simp [Sign.apply])

theorem compare_unpacked {f g : UnpackedFloat} {p q : ℚ} (hf : Canonical f) (hg : Canonical g)
    (hp : unpackedValue? f = some p) (hq : unpackedValue? g = some q) :
    f.compare g = some (compare p q) := by
  match f, g with
  | .infinity _, _ | .notANumber, _ => cases hp
  | _, .infinity _ | _, .notANumber => cases hq
  | .zero _, .zero _ =>
    cases hp
    cases hq
    rfl
  | .zero _, .finite .positive m e hm =>
    cases hp
    rw [eq_of_unpackedValue?_positive hq, compare_lt_iff_lt.2 (magnitude_pos hm e)]
    rfl
  | .zero _, .finite .negative m e hm =>
    cases hp
    rw [eq_of_unpackedValue?_negative hq,
      compare_gt_iff_gt.2 (neg_neg_of_pos (magnitude_pos hm e))]
    rfl
  | .finite .positive m e hm, .zero _ =>
    cases hq
    rw [eq_of_unpackedValue?_positive hp, compare_gt_iff_gt.2 (magnitude_pos hm e)]
    rfl
  | .finite .negative m e hm, .zero _ =>
    cases hq
    rw [eq_of_unpackedValue?_negative hp,
      compare_lt_iff_lt.2 (neg_neg_of_pos (magnitude_pos hm e))]
    rfl
  | .finite .positive m e hm, .finite .positive m' e' hm' =>
    rw [eq_of_unpackedValue?_positive hp, eq_of_unpackedValue?_positive hq,
      ← compare_magnitudes hf hg]
    rfl
  | .finite .positive m e hm, .finite .negative m' e' hm' =>
    rw [eq_of_unpackedValue?_positive hp, eq_of_unpackedValue?_negative hq,
      compare_gt_iff_gt.2 ((neg_neg_of_pos (magnitude_pos hm' e')).trans (magnitude_pos hm e))]
    rfl
  | .finite .negative m e hm, .finite .positive m' e' hm' =>
    rw [eq_of_unpackedValue?_negative hp, eq_of_unpackedValue?_positive hq,
      compare_lt_iff_lt.2 ((neg_neg_of_pos (magnitude_pos hm e)).trans (magnitude_pos hm' e'))]
    rfl
  | .finite .negative m e hm, .finite .negative m' e' hm' =>
    rw [eq_of_unpackedValue?_negative hp, eq_of_unpackedValue?_negative hq, compare_neg,
      ← compare_magnitudes hf hg]
    rfl

end Compare

section Values

variable {x y : Float} {p q : ℚ}

theorem lt_iff_compare : x < y ↔ (unpacked x).compare (unpacked y) = some .lt := by
  change decide ((UnpackedFloat.compare _ _ == some .lt) = true) = true ↔ _
  rw [decide_eq_true_iff, beq_iff_eq]
  rfl

theorem le_iff_compare : x ≤ y ↔ ((unpacked x).compare (unpacked y)).any (·.isLE) = true := by
  change decide (Option.any _ _ = true) = true ↔ _
  rw [decide_eq_true_iff]
  rfl

theorem lt_iff (hp : value? x = some p) (hq : value? y = some q) : x < y ↔ p < q := by
  have h := compare_unpacked (canonical_unpacked x) (canonical_unpacked y) hp hq
  rw [lt_iff_compare, h, Option.some.injEq, compare_lt_iff_lt]

theorem le_iff (hp : value? x = some p) (hq : value? y = some q) : x ≤ y ↔ p ≤ q := by
  have h := compare_unpacked (canonical_unpacked x) (canonical_unpacked y) hp hq
  rw [le_iff_compare, h, Option.any_some, ← compare_le_iff_le, Ordering.isLE_iff_ne_gt]

/-- A double that is at least a number and not the largest stands for a number. -/
theorem exists_value_of_le_of_lt {z : Float} (hz : value? z = some q) (hle : z ≤ x)
    (hlt : x < y) : ∃ p, value? x = some p := by
  rw [le_iff_compare] at hle
  rw [lt_iff_compare] at hlt
  rw [value?] at hz ⊢
  generalize unpacked x = f, unpacked y = g, unpacked z = h at hz hle hlt
  match f with
  | .zero s | .finite s m e hm => exact ⟨_, rfl⟩
  | .notANumber => cases g <;> cases hlt
  | .infinity .positive => match g with
    | .infinity .positive | .infinity .negative | .notANumber | .zero _ | .finite .. => cases hlt
  | .infinity .negative => match h with
    | .infinity _ | .notANumber => cases hz
    | .zero _ | .finite .positive .. | .finite .negative .. => cases hle

theorem beq_iff (hp : value? x = some p) (hq : value? y = some q) : (x == y) = true ↔ p = q := by
  have h := compare_unpacked (canonical_unpacked x) (canonical_unpacked y) hp hq
  have hbeq : (x == y) = ((unpacked x).compare (unpacked y) == some .eq) := rfl
  rw [hbeq, h, beq_iff_eq, Option.some.injEq, compare_eq_iff_eq]

end Values

end ServoBus.Double
