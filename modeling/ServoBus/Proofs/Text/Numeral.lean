import ServoBus.Proofs.Text.Based
import ServoBus.Proofs.Text.Blank

/-!
# Decimal numerals

The decimal numerals are those in the base ten. What the readers accept is told by their grammar
once more, with the digits and their value in the terms of the library. A word that is printed is
read as that word again, also with blanks around it.
-/

namespace ServoBus.Text

/-- Decimal digits that denote a number. -/
structure Numeral (cs : List Char) (n : Nat) : Prop where
  ne_nil : cs ≠ []
  isDigit : ∀ c ∈ cs, c.isDigit = true
  value : Nat.ofDigitChars 10 cs 0 = n

inductive UnsignedNumeral : List Char → Nat → Prop
  | bare {cs n} : Numeral cs n → UnsignedNumeral cs n
  | plus {cs n} : Numeral cs n → UnsignedNumeral ('+' :: cs) n

inductive SignedNumeral : List Char → Int → Prop
  | bare {cs n} : Numeral cs n → SignedNumeral cs (Int.ofNat n)
  | plus {cs n} : Numeral cs n → SignedNumeral ('+' :: cs) (Int.ofNat n)
  | minus {cs n} : Numeral cs n → SignedNumeral ('-' :: cs) (-Int.ofNat n)

theorem isDigit_iff {c : Char} : c.isDigit = true ↔ '0' ≤ c ∧ c ≤ '9' := by
  rw [Char.isDigit, Bool.and_eq_true, decide_eq_true_iff, decide_eq_true_iff]
  exact Iff.rfl

theorem digit?_eq_some_iff {c : Char} {d : Nat} :
    digit? 10 c = some d ↔ c.isDigit = true ∧ c.toNat - '0'.toNat = d := by
  have hrange : c.isDigit = true ↔ 48 ≤ c.toNat ∧ c.toNat ≤ 57 := isDigit_iff
  have hzero : '0'.toNat = 48 := rfl
  rw [digit?_iff (by decide), digitIn_iff (by decide), hrange]
  omega

theorem readDigits_eq_some_iff {cs : List Char} {m n : Nat} :
    readDigits 10 m cs = some n ↔
      (∀ c ∈ cs, c.isDigit = true) ∧ Nat.ofDigitChars 10 cs m = n := by
  induction cs generalizing m with
  | nil => simp
  | cons c cs ih =>
    simp only [readDigits_cons, Option.bind_eq_some_iff, digit?_eq_some_iff, ih,
      List.forall_mem_cons, Nat.ofDigitChars_cons]
    constructor
    · rintro ⟨d, ⟨hc, rfl⟩, hcs, hn⟩
      exact ⟨⟨hc, hcs⟩, hn⟩
    · rintro ⟨⟨hc, hcs⟩, hn⟩
      exact ⟨_, ⟨hc, rfl⟩, hcs, hn⟩

theorem natural?_eq_some_iff {cs : List Char} {n : Nat} :
    natural? 10 cs = some n ↔ Numeral cs n := by
  cases cs with
  | nil => exact iff_of_false (fun h => nomatch h) fun h => h.ne_nil rfl
  | cons c cs =>
    refine readDigits_eq_some_iff.trans ⟨fun h => ⟨List.cons_ne_nil c cs, h.1, h.2⟩, fun h => ?_⟩
    exact ⟨h.isDigit, h.value⟩

theorem numeral_iff {cs : List Char} {n : Nat} : Numeral cs n ↔ NumeralIn 10 cs n :=
  natural?_eq_some_iff.symm.trans (natural?_iff (by decide))

theorem unsignedNumeral_iff {cs : List Char} {n : Nat} :
    UnsignedNumeral cs n ↔ UnsignedIn 10 cs n := by
  constructor
  · rintro (h | h)
    · exact .bare (numeral_iff.1 h)
    · exact .plus (numeral_iff.1 h)
  · rintro (h | h)
    · exact .bare (numeral_iff.2 h)
    · exact .plus (numeral_iff.2 h)

theorem signedNumeral_iff {cs : List Char} {n : Int} : SignedNumeral cs n ↔ SignedIn 10 cs n := by
  constructor
  · rintro (h | h | h)
    · exact .positive (.bare (numeral_iff.1 h))
    · exact .positive (.plus (numeral_iff.1 h))
    · exact .negative (numeral_iff.1 h)
  · rintro ((h | h) | h)
    · exact .bare (numeral_iff.2 h)
    · exact .plus (numeral_iff.2 h)
    · exact .minus (numeral_iff.2 h)

theorem word32?_eq_some_iff {cs : List Char} {w : UInt32} :
    word32? 10 cs = some w ↔ UnsignedNumeral cs w.toNat :=
  (word32?_iff (by decide)).trans unsignedNumeral_iff.symm

theorem signedWord32?_eq_some_iff {cs : List Char} {w : Int32} :
    signedWord32? 10 cs = some w ↔ SignedNumeral cs w.toInt :=
  (signedWord32?_iff (by decide)).trans signedNumeral_iff.symm

theorem UnsignedNumeral.signed {cs : List Char} {n : Nat} (h : UnsignedNumeral cs n) :
    SignedNumeral cs (Int.ofNat n) := by
  cases h with
  | bare h => exact .bare h
  | plus h => exact .plus h

theorem SignedNumeral.ne_nil {cs : List Char} {n : Int} (h : SignedNumeral cs n) : cs ≠ [] := by
  cases h with
  | bare h => exact h.ne_nil
  | plus => exact List.cons_ne_nil _ _
  | minus => exact List.cons_ne_nil _ _

/-- What holds of digits and signs holds of all characters of a numeral. -/
theorem SignedNumeral.forall_mem {P : Char → Prop} {cs : List Char} {n : Int}
    (h : SignedNumeral cs n) (hdigit : ∀ c, c.isDigit = true → P c) (hplus : P '+')
    (hminus : P '-') : ∀ c ∈ cs, P c := by
  cases h with
  | bare h => exact fun c hc => hdigit c (h.isDigit c hc)
  | plus h => exact List.forall_mem_cons.2 ⟨hplus, fun c hc => hdigit c (h.isDigit c hc)⟩
  | minus h => exact List.forall_mem_cons.2 ⟨hminus, fun c hc => hdigit c (h.isDigit c hc)⟩

/-! ### Blanks around a numeral -/

theorem isBlank_of_isDigit {c : Char} (h : c.isDigit = true) : isBlank c = false := by
  have hrange : 48 ≤ c.toNat ∧ c.toNat ≤ 57 := isDigit_iff.1 h
  rw [← Bool.not_eq_true, isBlank, inRanges_iff]
  simp only [blankRanges, List.mem_cons, List.not_mem_nil, or_false, exists_eq_or_imp,
    exists_eq_left]
  omega

theorem isBlank_of_mem {cs : List Char} {n : Int} (h : SignedNumeral cs n) :
    ∀ c ∈ cs, isBlank c = false :=
  h.forall_mem (fun _ => isBlank_of_isDigit) (by decide) (by decide)

theorem SignedNumeral.unpadded {cs : List Char} {n : Int} (h : SignedNumeral cs n) :
    Unpadded cs :=
  ⟨fun c hc => isBlank_of_mem h c (List.mem_of_mem_head? hc),
    fun c hc => isBlank_of_mem h c (List.mem_of_mem_getLast? hc)⟩

/-! ### Printed words -/

theorem numeral_toDigits (n : Nat) : Numeral (Nat.toDigits 10 n) n where
  ne_nil := Nat.toDigits_ne_nil
  isDigit _ hc := Nat.isDigit_of_mem_toDigits (by decide) (by decide) hc
  value := Nat.ofDigitChars_toDigits (by decide) (by decide)

theorem unsignedNumeral_toString (w : UInt32) : UnsignedNumeral (toString w).toList w.toNat := by
  change UnsignedNumeral (toString w.toNat).toList w.toNat
  rw [Nat.toString_eq_repr, Nat.toList_repr]
  exact .bare (numeral_toDigits w.toNat)

theorem signedNumeral_toString (w : Int32) : SignedNumeral (toString w).toList w.toInt := by
  change SignedNumeral (toString w.toInt).toList w.toInt
  rw [Int.toString_eq_repr, Int.repr_eq_if]
  generalize w.toInt = n
  split
  · next h =>
    have hread := SignedNumeral.bare (numeral_toDigits n.toNat)
    rwa [Int.ofNat_eq_natCast, Int.toNat_of_nonneg h, ← Nat.toList_repr] at hread
  · next h =>
    have hread := SignedNumeral.minus (numeral_toDigits (-n).toNat)
    rw [Int.ofNat_eq_natCast, Int.toNat_of_nonneg (by omega), Int.neg_neg,
      ← Nat.toList_repr] at hread
    rwa [String.toList_append]

end ServoBus.Text
