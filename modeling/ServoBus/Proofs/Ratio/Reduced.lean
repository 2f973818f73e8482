import ServoBus.Proofs.Ratio.Decode
import ServoBus.Proofs.Ratio.Growth

/-!
# Ratios in lowest terms

A decimal is replaced by a convergent with a sign. Its cross products differ by one, so that it is
in lowest terms, and its denominator is within the bound: that holds of any numbers whatever, and
does not depend on how well the doubles are computed with.
-/

namespace ServoBus.Ratio

/-- A ratio in lowest terms whose denominator is within a bound. -/
structure Reduced (r : Ratio) (bound : Nat) : Prop where
  pos : 1 ≤ r.denominator.toNat
  le : r.denominator.toNat ≤ bound
  coprime : Nat.gcd r.numerator.toInt.natAbs r.denominator.toNat = 1

/-- The parts of a ratio are those of a convergent with a sign, so that both of them fit. -/
structure Signed (negative : Bool) (c : Convergent) (r : Ratio) : Prop where
  numerator : r.numerator.toInt = if negative then -c.numerator else c.numerator
  denominator : (r.denominator.toNat : Int) = c.denominator

theorem toNat_ofInt {d : Int} (h0 : 0 ≤ d) (hlt : d < 0x100000000) :
    ((UInt32.ofInt d).toNat : Int) = d := by
  have hmod : d % 2 ^ 32 = d := Int.emod_eq_of_lt h0 hlt
  have hlt' : d.toNat < 0x100000000 := by omega
  rw [UInt32.ofInt, hmod, UInt32.toNat_ofNat_of_lt' hlt', Int.toNat_of_nonneg h0]

theorem ofParts?_eq_some_iff {n d : Int} {r : Ratio} :
    ofParts? n d = some r ↔
      d ≠ 0 ∧ r.numerator.toInt = n ∧ (r.denominator.toNat : Int) = d := by
  rw [ofParts?, Option.ite_none_right_eq_some, Option.some.injEq]
  constructor
  · rintro ⟨⟨hd, ⟨hn, hn'⟩, hd0, hd'⟩, rfl⟩
    exact ⟨hd, Int32.toInt_ofInt_of_le hn hn', toNat_ofInt hd0 hd'⟩
  · rintro ⟨hd, rfl, rfl⟩
    have hd0 := Int.natCast_nonneg r.denominator.toNat
    have hd' : (r.denominator.toNat : Int) < 0x100000000 := Int.ofNat_lt.2 r.denominator.toNat_lt
    refine ⟨⟨hd, ⟨r.numerator.le_toInt, r.numerator.toInt_lt⟩, hd0, hd'⟩, ?_⟩
    have hdenominator : UInt32.ofInt r.denominator.toNat = r.denominator :=
      UInt32.toNat_inj.1 (Int.ofNat_inj.1 (toNat_ofInt hd0 hd'))
    rw [Int32.ofInt_toInt, hdenominator]

theorem ofExpansion?_eq_some_iff {α : Type} {e : Expansion α} {negative : Bool} {x : α}
    {bound : Nat} {r : Ratio} :
    ofExpansion? e negative x bound = some r ↔
      (e.best bound x).denominator ≠ 0 ∧ Signed negative (e.best bound x) r :=
  ofParts?_eq_some_iff.trans (and_congr_right fun _ => ⟨fun h => ⟨h.1, h.2⟩, fun h => ⟨h.1, h.2⟩⟩)

/-- The parts of a convergent have no common divisor. -/
theorem gcd_eq_one_of_cross {c : Convergent} (h : c.cross = 1 ∨ c.cross = -1) :
    Int.gcd c.numerator c.denominator = 1 := by
  refine Int.isCoprime_iff_gcd_eq_one.1 ?_
  rcases h with h | h
  · exact ⟨c.lastDenominator, -c.lastNumerator, by rw [← h, Convergent.cross]; ring⟩
  · refine ⟨-c.lastDenominator, c.lastNumerator, ?_⟩
    rw [Convergent.cross] at h
    linarith

theorem Signed.reduced {negative : Bool} {r : Ratio} {c : Convergent} {bound : Nat}
    (h : Signed negative c r)
    (hcross : c.cross = 1 ∨ c.cross = -1) (h0 : c.denominator ≠ 0) (hle : c.denominator ≤ bound) :
    r.Reduced bound := by
  obtain ⟨hn, hd⟩ := h
  refine ⟨by omega, by omega, ?_⟩
  have hgcd := gcd_eq_one_of_cross hcross
  rw [← hd, Int.gcd, Int.natAbs_natCast] at hgcd
  have habs : r.numerator.toInt.natAbs = c.numerator.natAbs := by
    rw [hn]
    cases negative with
    | false => rfl
    | true => exact Int.natAbs_neg c.numerator
  rwa [habs]

section Expansion

variable {α : Type} {e : Expansion α} {x : α} {negative : Bool} {bound : Nat} {r : Ratio}

theorem reduced_of_ofExpansion? (h : ofExpansion? e negative x bound = some r) :
    r.Reduced bound := by
  obtain ⟨h0, hsigned⟩ := ofExpansion?_eq_some_iff.1 h
  obtain ⟨as, next, hu, -⟩ := e.exists_updates_best bound x
  exact hsigned.reduced hu.cross_eq h0 hu.denominator_le

end Expansion

theorem zero_le_abs_of_isFinite {x : Float} (h : x.isFinite = true) : 0 ≤ x.abs := by
  obtain ⟨p, hp⟩ := Double.isFinite_iff.1 h
  exact (Double.le_iff Double.value?_zero (Double.value?_abs hp)).2 (abs_nonneg p)

/-- A decimal that is decoded is a ratio in lowest terms with a bounded denominator, and has the
parts of the convergent that the loop ends with. Nothing of that depends on the arithmetic: with any
numbers, each update leaves a convergent whose cross products differ by one, with a bounded
denominator, an overflow ends the loop with the last of them, and any ratio that comes from it is in
lowest terms. -/
theorem decode_reduced (text : String) (bound : UInt32)
    (htext : ∀ c ∈ text.toList, c ≠ '/' ∧ c ≠ ':') :
    (∀ r, (decode text bound).outcome = .ok r → r.Reduced bound.toNat ∧
      ∃ x c, Decimal.float? (Text.trimBlanks text.toList) = some x ∧
        Float.expansion.Ends bound.toNat x.abs c ∧ Signed (x < 0) c r) ∧
    ∀ (α : Type) (e : Expansion α) (x : α),
      (∀ as c next, e.Updates bound.toNat x as c next →
        (c.cross = 1 ∨ c.cross = -1) ∧ c.denominator ≤ bound.toNat ∧
        ∀ y, next = some y →
          (∀ a, e.whole? y = some a →
            Convergent.mulAdd? c.denominator a c.lastDenominator = none ∨
              Convergent.mulAdd? c.numerator a c.lastNumerator = none) →
          e.Ends bound.toNat x c) ∧
      ∀ negative r, ofExpansion? e negative x bound.toNat = some r → r.Reduced bound.toNat := by
  refine ⟨fun r h => ?_, fun α e x => ⟨fun as c next hu => ?_, fun _ _ => reduced_of_ofExpansion?⟩⟩
  · obtain ⟨x, hx, hr⟩ := (decode_decimal_eq_ok_iff htext).1 h
    obtain ⟨⟨hfinite, -⟩, hr⟩ := ofFloat?_eq_some_iff.1 hr
    exact ⟨reduced_of_ofExpansion? hr, x, _, hx,
      Expansion.ends_best Float.expansion_proper (zero_le_abs_of_isFinite hfinite),
      (ofExpansion?_eq_some_iff.1 hr).2⟩
  · refine ⟨hu.cross_eq, hu.denominator_le, ?_⟩
    rintro y rfl hoverflow
    exact hu.ends_of_mulAdd? hoverflow

theorem decode_reduced_decimal :
    (∀ c ∈ " 5.2".toList, c ≠ '/' ∧ c ≠ ':') ∧
      (decode " 5.2" defaultBound).outcome = .ok ⟨26, 5⟩ ∧ Reduced ⟨26, 5⟩ 32768 := by
  have htext : ∀ c ∈ " 5.2".toList, c ≠ '/' ∧ c ≠ ':' := by simp
  have hok : (decode " 5.2" defaultBound).outcome = .ok ⟨26, 5⟩ :=
    outcome_decode_eq_ok_iff.2 (by decide +kernel)
  exact ⟨htext, hok, ((decode_reduced " 5.2" defaultBound htext).1 _ hok).1⟩

end ServoBus.Ratio
