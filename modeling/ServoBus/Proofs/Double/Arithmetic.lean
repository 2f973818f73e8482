import ServoBus.Proofs.Double.Order

/-!
# Arithmetic of doubles

A result that is a double itself is not rounded: so differences of a number and its whole part are
exact, and words that are not too long become doubles as they are.
-/

namespace ServoBus.Double

open Float.Model Float.Model.UnpackedFloat

/-- A number with 53 places and an exponent in the range of doubles. -/
def Representable (p : ℚ) : Prop :=
  ∃ (k e : Int), |k| < 2 ^ 53 ∧ -1074 ≤ e ∧ p = k * 2 ^ e

section Rounded

variable {f : UnpackedFloat} {p : ℚ}

/-- A canonical double is out of range only if its number is. -/
theorem bounded_of_abs_lt (hf : Canonical f) (hp : unpackedValue? f = some p)
    (h : |p| < 2 ^ 1024) : Bounded f := by
  match f with
  | .infinity _ | .notANumber | .zero _ => trivial
  | .finite s m e hm =>
    by_contra he
    obtain ⟨-, -, hfull⟩ := hf
    simp only [Bounded, not_le] at he
    have hm' : 2 ^ 52 ≤ m := hfull.resolve_right (by omega)
    have habs : |p| = m * 2 ^ e := by
      cases Option.some.inj hp
      cases s <;> simp [Sign.apply, abs_mul, abs_of_pos (two_zpow_pos e)]
    have hpow : (2 : ℚ) ^ (972 : Int) ≤ 2 ^ e := zpow_le_zpow_right₀ (by norm_num) (by omega)
    have hcast : (2 ^ 52 : ℚ) ≤ m := by exact_mod_cast hm'
    have hge : (2 ^ 52 : ℚ) * 2 ^ (972 : Int) ≤ m * 2 ^ e :=
      mul_le_mul hcast hpow (by positivity) (by positivity)
    have hsplit : (2 : ℚ) ^ 1024 = 2 ^ 52 * 2 ^ (972 : Int) := by
      rw [← zpow_natCast, ← zpow_natCast, ← zpow_add₀ (by norm_num)]
      rfl
    rw [habs, hsplit] at h
    exact absurd h (not_lt.2 hge)

theorem unpacked_pack (hf : Canonical f) (hb : Bounded f) :
    unpacked ⟨Float.Model.pack f⟩ = f := by
  match f with
  | .infinity s | .zero s => cases s <;> rfl
  | .notANumber => rfl
  | .finite s m e hm => exact unpack_pack_finite hf hb

theorem unpacked_pack_of_large (hf : Canonical f) (hp : unpackedValue? f = some p)
    (h : 2 ^ 1024 ≤ p) : unpacked ⟨Float.Model.pack f⟩ = .infinity .positive := by
  have hpos : (0 : ℚ) < p := lt_of_lt_of_le (by positivity) h
  match f with
  | .infinity _ | .notANumber => cases hp
  | .zero s =>
    cases hp
    exact absurd hpos (lt_irrefl 0)
  | .finite .negative m e hm =>
    rw [eq_of_unpackedValue?_negative hp] at hpos
    linarith [magnitude_pos hm e]
  | .finite .positive m e hm =>
    refine @unpack_pack_large _ m e hm ?_
    by_contra he
    have hm53 : (m : ℚ) < 2 ^ 53 := by exact_mod_cast hf.1
    have hpow : (2 : ℚ) ^ e ≤ 2 ^ (971 : Int) := zpow_le_zpow_right₀ (by norm_num) (by omega)
    have hsplit : (2 : ℚ) ^ 1024 = 2 ^ 53 * 2 ^ (971 : Int) := by
      rw [← zpow_natCast, ← zpow_natCast, ← zpow_add₀ (by norm_num)]
      rfl
    have hlt : (m : ℚ) * 2 ^ e < 2 ^ 53 * 2 ^ (971 : Int) :=
      mul_lt_mul hm53 hpow (two_zpow_pos e) (by positivity)
    rw [eq_of_unpackedValue?_positive hp, hsplit] at h
    exact absurd hlt (not_lt.2 h)

theorem value?_pack (hf : Canonical f) (hp : unpackedValue? f = some p) (h : |p| < 2 ^ 1024) :
    value? ⟨Float.Model.pack f⟩ = some p := by
  rw [value?, unpacked_pack hf (bounded_of_abs_lt hf hp h), hp]

end Rounded

/-! ### Exact results -/

theorem log2_shiftLeft {m : Nat} (hm : 0 < m) (k : Nat) : (m <<< k).log2 = m.log2 + k := by
  rw [Nat.log2_eq_iff (by rw [Nat.shiftLeft_eq]; positivity), Nat.shiftLeft_eq]
  have hlow := Nat.log2_self_le hm.ne'
  have hhigh := @Nat.lt_log2_self m
  constructor
  · rw [pow_add]
    exact Nat.mul_le_mul_right _ hlow
  · rw [show m.log2 + k + 1 = m.log2 + 1 + k by omega, pow_add]
    exact Nat.mul_lt_mul_of_pos_right hhigh (by positivity)

theorem rounds_round (s : Sign) {m : Nat} (hm : 0 < m) (e : Int) :
    ∃ r, Rounds s (m * 2 ^ e) (gridExponent m e) r (UnpackedFloat.round Format.binary64 s m e) := by
  set k := (e - gridExponent m e).toNat with hk
  have hlog := log2_shiftLeft hm k
  have hgrid : gridExponent (m <<< k) (e - k) = gridExponent m e := by
    rw [gridExponent, gridExponent, hlog]
    congr 1
    omega
  have hvalue : ((m <<< k : ℕ) : ℚ) * 2 ^ (e - k : Int) = m * 2 ^ e := by
    rw [Nat.shiftLeft_eq, Nat.cast_mul, Nat.cast_pow, Nat.cast_ofNat, mul_assoc, ← zpow_natCast,
      ← zpow_add₀ (by norm_num)]
    congr 2
    omega
  have h := rounds_roundWithAccuracy s (locates_exact (m <<< k)) (e := e - k) (by
    rw [hgrid]
    omega)
  rw [hgrid, hvalue] at h
  rwa [UnpackedFloat.round, targetExponent_eq, decreaseExponent]

theorem apply_mul (s : Sign) (m : Int) (x : ℚ) :
    ((s.apply m : Int) : ℚ) * x = (s.apply 1 : Int) * (m * x) := by
  cases s <;> simp [Sign.apply]

theorem gridExponent_le {m : Nat} {e k e' : Int} (hm : 0 < m) (hk : |k| < 2 ^ 53)
    (he : -1074 ≤ e') (heq : (m : ℚ) * 2 ^ e = k * 2 ^ e') : gridExponent m e ≤ e' := by
  have hlow : (2 ^ m.log2 : ℚ) ≤ m := by exact_mod_cast Nat.log2_self_le hm.ne'
  have hhigh : (k : ℚ) < 2 ^ 53 := by exact_mod_cast (abs_lt.1 hk).2
  have hlt : (2 : ℚ) ^ (m.log2 + e) < 2 ^ (53 + e') := by
    rw [zpow_add₀ (by norm_num), zpow_add₀ (by norm_num), zpow_natCast]
    calc (2 : ℚ) ^ m.log2 * 2 ^ e ≤ m * 2 ^ e :=
          mul_le_mul_of_nonneg_right hlow (two_zpow_pos e).le
      _ = k * 2 ^ e' := heq
      _ < 2 ^ 53 * 2 ^ e' := mul_lt_mul_of_pos_right hhigh (two_zpow_pos e')
  have := (zpow_lt_zpow_iff_right₀ (by norm_num : (1 : ℚ) < 2)).1 hlt
  rw [gridExponent]
  omega

/-- A number that is representable is not rounded. -/
theorem exact_round (s : Sign) {m : Nat} {e : Int} (hm : 0 < m)
    (h : Representable (m * 2 ^ e)) :
    Canonical (UnpackedFloat.round Format.binary64 s m e) ∧
      unpackedValue? (UnpackedFloat.round Format.binary64 s m e) =
        some ((s.apply m : Int) * (2 : ℚ) ^ e) := by
  obtain ⟨k, e', hk, he, heq⟩ := h
  obtain ⟨r, hr⟩ := rounds_round s hm e
  have hle := gridExponent_le hm hk he heq
  generalize gridExponent m e = t at hr hle
  have hpos := magnitude_pos hm e
  have hk0 : 0 < k := by
    have : (0 : ℚ) < k := pos_of_mul_pos_left (heq ▸ hpos) (two_zpow_pos e').le
    exact_mod_cast this
  have hsteps : (m : ℚ) * 2 ^ e / 2 ^ t = (k.toNat * 2 ^ (e' - t).toNat : ℕ) := by
    have hcast : ((k.toNat : ℕ) : ℚ) = k := by exact_mod_cast Int.toNat_of_nonneg hk0.le
    have hpow : (2 : ℚ) ^ (e' - t).toNat = 2 ^ e' / 2 ^ t := by
      rw [← zpow_natCast, Int.toNat_of_nonneg (by omega), zpow_sub₀ (by norm_num)]
    rw [Nat.cast_mul, Nat.cast_pow, hcast, Nat.cast_ofNat, hpow, heq]
    ring
  refine ⟨hr.canonical, ?_⟩
  have hrt : (r : ℚ) * 2 ^ t = m * 2 ^ e := by
    rw [hr.exact _ hsteps, ← hsteps, div_mul_cancel₀ _ (two_zpow_pos t).ne']
  rw [hr.value, apply_mul, apply_mul s m]
  push_cast
  rw [hrt]

theorem exact_normalize {m e : Int} (h : Representable (m * 2 ^ e)) :
    Canonical (UnpackedFloat.normalize Format.binary64 m e .positive) ∧
      unpackedValue? (UnpackedFloat.normalize Format.binary64 m e .positive) =
        some ((m : ℚ) * 2 ^ e) := by
  obtain ⟨k, e', hk, he, heq⟩ := h
  rcases lt_trichotomy m 0 with hm | rfl | hm
  · obtain ⟨n, rfl⟩ := Int.eq_negSucc_of_lt_zero hm
    have := exact_round .negative (m := n + 1) (e := e) (by omega)
      ⟨-k, e', by rwa [abs_neg], he, by push_cast at heq ⊢; linarith⟩
    rw [UnpackedFloat.normalize, Int.compare_eq_lt.2 hm]
    simpa [Sign.apply, Int.negSucc_eq] using this
  · rw [UnpackedFloat.normalize, Int.compare_eq_eq.2 rfl]
    exact ⟨trivial, by simp [unpackedValue?]⟩
  · obtain ⟨n, rfl⟩ := Int.eq_ofNat_of_zero_le hm.le
    have := exact_round .positive (m := n) (e := e) (by omega)
      ⟨k, e', hk, he, by exact_mod_cast heq⟩
    rw [UnpackedFloat.normalize, Int.compare_eq_gt.2 hm]
    simpa [Sign.apply] using this

/-! ### Differences -/

theorem decreaseExponent_eq {m : Nat} {e t : Int} (h : t ≤ e) :
    ∃ n : Nat, decreaseExponent m e t = (n, t) ∧ (n : ℚ) * 2 ^ t = m * 2 ^ e := by
  obtain ⟨k, rfl⟩ : ∃ k : ℕ, e = t + k := ⟨(e - t).toNat, by omega⟩
  refine ⟨m <<< k, ?_, ?_⟩
  · rw [decreaseExponent, add_sub_cancel_left, Int.toNat_natCast, add_sub_cancel_right]
  · rw [Nat.shiftLeft_eq, Nat.cast_mul, Nat.cast_pow, Nat.cast_ofNat, zpow_add₀ (by norm_num),
      zpow_natCast]
    ring

theorem exact_sub {f g : UnpackedFloat} {p q : ℚ} (hf : Canonical f) (hg : Canonical g)
    (hp : unpackedValue? f = some p) (hq : unpackedValue? g = some q)
    (h : Representable (p - q)) :
    Canonical (UnpackedFloat.sub Format.binary64 f g) ∧
      unpackedValue? (UnpackedFloat.sub Format.binary64 f g) = some (p - q) := by
  match f, g with
  | .infinity _, _ | .notANumber, _ => cases hp
  | _, .infinity _ | _, .notANumber => cases hq
  | .zero s, .zero s' =>
    cases hp
    cases hq
    rw [sub_zero]
    cases s <;> cases s' <;> exact ⟨trivial, rfl⟩
  | .zero s, .finite s' m' e' hm' =>
    cases hp
    cases hq
    rw [zero_sub]
    refine ⟨hg, ?_⟩
    cases s' with
    | negative =>
      change some (((m' : Int) : ℚ) * 2 ^ e') = some (-(((-m' : Int) : ℚ) * 2 ^ e'))
      rw [Int.cast_neg, neg_mul, neg_neg]
    | positive =>
      change some (((-m' : Int) : ℚ) * 2 ^ e') = some (-(((m' : Int) : ℚ) * 2 ^ e'))
      rw [Int.cast_neg, neg_mul]
  | .finite s m e hm, .zero s' =>
    cases hq
    exact ⟨hf, by rw [sub_zero]; exact hp⟩
  | .finite s m e hm, .finite s' m' e' hm' =>
    obtain ⟨n, hn, hvalue⟩ := decreaseExponent_eq (m := m) (min_le_left e e')
    obtain ⟨n', hn', hvalue'⟩ := decreaseExponent_eq (m := m') (min_le_right e e')
    have hdiff : ((s.apply n - s'.apply n' : Int) : ℚ) * 2 ^ min e e' = p - q := by
      cases hp
      cases hq
      rw [apply_mul s m, apply_mul s' m', Int.cast_sub, sub_mul, apply_mul s n, apply_mul s' n']
      push_cast
      rw [hvalue, hvalue']
    rw [← hdiff] at h ⊢
    simp only [UnpackedFloat.sub, hn, hn']
    exact exact_normalize h

section Values

variable {x y : Float} {p q : ℚ}

theorem value?_sub (hp : value? x = some p) (hq : value? y = some q) (h : Representable (p - q))
    (hlt : |p - q| < 2 ^ 1024) : value? (x - y) = some (p - q) := by
  obtain ⟨hc, hv⟩ := exact_sub (canonical_unpacked x) (canonical_unpacked y) hp hq h
  exact value?_pack hc hv hlt

theorem value?_abs (hp : value? x = some p) : value? x.abs = some |p| := by
  have hc := canonical_unpacked x
  have hb := bounded_unpacked x
  have habs : value? x.abs =
      unpackedValue? (unpacked ⟨Float.Model.pack (unpacked x).abs⟩) := rfl
  change unpackedValue? (unpacked x) = some p at hp
  rw [habs]
  generalize unpacked x = f at *
  match f with
  | .infinity _ | .notANumber => cases hp
  | .zero s =>
    cases hp
    rw [unpacked_pack (f := UnpackedFloat.abs (.zero s)) trivial trivial, abs_zero]
    rfl
  | .finite s m e hm =>
    rw [unpacked_pack (f := UnpackedFloat.abs (.finite s m e hm)) hc hb]
    cases hp
    cases s <;>
      simp [UnpackedFloat.abs, unpackedValue?, Sign.apply, abs_mul, abs_of_pos (two_zpow_pos e)]

/-- A double is finite if it stands for a number. -/
theorem isFinite_iff : x.isFinite = true ↔ ∃ p, value? x = some p := by
  change (unpacked x).isFinite = true ↔ ∃ p, unpackedValue? (unpacked x) = some p
  cases unpacked x <;> simp [UnpackedFloat.isFinite, unpackedValue?]

end Values

end ServoBus.Double
