import ServoBus.Proofs.Double.Rounding

/-!
# Packing

A double is kept as a word of 64 bits. What is read from such a word is always canonical, and a
canonical double that is not too large is read back as it was packed; a larger one becomes
infinity.
-/

namespace ServoBus.Double

open Float.Model Float.Model.UnpackedFloat

/-- The leading bit of a significand is not kept. -/
theorem toNat_one_append (m : BitVec 52) : ((1#1 : BitVec 1) ++ m).toNat = 2 ^ 52 + m.toNat := by
  rw [BitVec.toNat_append, ← Nat.shiftLeft_add_eq_or_of_lt m.isLt]
  rfl

/-- The largest exponent of a double. -/
def Bounded : UnpackedFloat → Prop
  | .finite _ _ e _ => e ≤ 971
  | _ => True

theorem canonical_unpack (b : BitVec 64) :
    Canonical (UnpackedFloat.unpack Format.binary64 b) ∧
      Bounded (UnpackedFloat.unpack Format.binary64 b) := by
  have hm := (@unpackMantissa Format.binary64 b).isLt
  have he := (@unpackExponent Format.binary64 b).isLt
  change (@unpackMantissa Format.binary64 b).toNat < 2 ^ 52 at hm
  change (@unpackExponent Format.binary64 b).toNat < 2 ^ 11 at he
  unfold UnpackedFloat.unpack
  dsimp only
  split
  · split <;> exact ⟨trivial, trivial⟩
  · next hones =>
    have hones' : (@unpackExponent Format.binary64 b).toNat ≠ 2047 := fun h =>
      hones (BitVec.eq_of_toNat_eq h)
    split
    · next hzero =>
      split
      · exact ⟨trivial, trivial⟩
      · simp only [Canonical, Bounded, hzero, Format.exponentBias, BitVec.toNat_ofNat]
        norm_num
        omega
    · next hzero =>
      have hzero' : (@unpackExponent Format.binary64 b).toNat ≠ 0 := fun h =>
        hzero (BitVec.eq_of_toNat_eq h)
      have htoNat := toNat_one_append (@unpackMantissa Format.binary64 b)
      simp only [Canonical, Bounded, Format.exponentBias]
      rw [htoNat]
      norm_num
      omega

theorem unpack_packComponents_normal (s : Sign) {m b : Nat} (hm : 2 ^ 52 ≤ m) (hlt : m < 2 ^ 53)
    (hb : 0 < b) (hb' : b < 2047) :
    UnpackedFloat.unpack Format.binary64
        (packComponents Format.binary64 s (BitVec.ofNat 11 b) (BitVec.ofNat 52 m)) =
      .finite s m (b - 1075) (by omega) := by
  have hexp : (BitVec.ofNat 11 b).toNat = b := by
    rw [BitVec.toNat_ofNat, Nat.mod_eq_of_lt (by omega)]
  have hones : BitVec.ofNat 11 b ≠ -1#_ := fun h => by
    have := congrArg BitVec.toNat h
    rw [hexp] at this
    exact hb'.ne this
  have hzero : BitVec.ofNat 11 b ≠ 0#_ := fun h => by
    have := congrArg BitVec.toNat h
    rw [hexp] at this
    exact hb.ne' this
  have hmantissa : ((1#1 : BitVec 1) ++ BitVec.ofNat 52 m).toNat = m := by
    rw [toNat_one_append, BitVec.toNat_ofNat]
    omega
  unfold UnpackedFloat.unpack
  simp only [unpackExponent_packComponents, unpackMantissa_packComponents,
    unpackSign_packComponents, Sign.ofBitVec_toBitVec, if_neg hones, if_neg hzero, hmantissa, hexp]
  rfl

theorem unpack_packComponents_subnormal (s : Sign) {m : Nat} (hm : 0 < m) (hlt : m < 2 ^ 52) :
    UnpackedFloat.unpack Format.binary64
        (packComponents Format.binary64 s (0#11) (BitVec.ofNat 52 m)) =
      .finite s m (-1074) hm := by
  have hmantissa : (BitVec.ofNat 52 m).toNat = m := by
    rw [BitVec.toNat_ofNat, Nat.mod_eq_of_lt hlt]
  have hne : BitVec.ofNat 52 m ≠ 0#_ := fun h => by
    have := congrArg BitVec.toNat h
    rw [hmantissa] at this
    exact hm.ne' this
  have hones : (0#11 : BitVec 11) ≠ -1#_ := by decide
  unfold UnpackedFloat.unpack
  simp only [unpackExponent_packComponents, unpackMantissa_packComponents,
    unpackSign_packComponents, Sign.ofBitVec_toBitVec, if_neg hones, if_true, dif_neg hne,
    hmantissa]
  rfl

theorem pack_finite (s : Sign) (m : Nat) (e : Int) (hm : 0 < m) :
    UnpackedFloat.pack Format.binary64 (.finite s m e hm) =
      if 2048 ≤ (e + 1075).toNat + 1 then packedInfinity Format.binary64 s
      else if m.log2 + 1 = 53 then
        packComponents Format.binary64 s (BitVec.ofNat 11 (e + 1075).toNat) (BitVec.ofNat 52 m)
      else packComponents Format.binary64 s (0#11) (BitVec.ofNat 52 m) := by
  have hbias : e + (Format.exponentBias Format.binary64 : Int) + (52 : Nat) = e + 1075 := by
    rw [add_assoc]
    rfl
  rw [UnpackedFloat.pack]
  dsimp only
  rw [hbias]
  rfl

theorem unpack_pack_finite {s : Sign} {m : Nat} {e : Int} {hm : 0 < m}
    (hc : Canonical (.finite s m e hm)) (he : e ≤ 971) :
    UnpackedFloat.unpack Format.binary64 (UnpackedFloat.pack Format.binary64 (.finite s m e hm)) =
      .finite s m e hm := by
  obtain ⟨hlt, hmin, hfull⟩ := hc
  rw [pack_finite, if_neg (by omega)]
  by_cases h : 2 ^ 52 ≤ m
  · have hlog : m.log2 = 52 := (Nat.log2_eq_iff hm.ne').2 ⟨h, hlt⟩
    have hexp : ((e + 1075).toNat : Int) - 1075 = e := by omega
    rw [if_pos (by omega), unpack_packComponents_normal s h hlt (by omega) (by omega)]
    simp only [hexp]
  · obtain rfl : e = -1074 := hfull.resolve_left h
    have hlog : m.log2 < 52 := (Nat.log2_lt hm.ne').2 (by omega)
    rw [if_neg (by omega), unpack_packComponents_subnormal s hm (by omega)]

theorem unpack_pack_large {s : Sign} {m : Nat} {e : Int} {hm : 0 < m} (he : 971 < e) :
    UnpackedFloat.unpack Format.binary64 (UnpackedFloat.pack Format.binary64 (.finite s m e hm)) =
      .infinity s := by
  rw [pack_finite, if_pos (by omega)]
  cases s <;> rfl

end ServoBus.Double
