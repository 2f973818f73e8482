import Mathlib.Data.List.Forall2
import Mathlib.Data.Nat.Digits.Defs
import Mathlib.Tactic.IntervalCases
import ServoBus.Text.Numeral

/-!
# Numerals in a base

What the readers of numerals accept in a base up to sixteen is told by their grammar: digits, at
least one of them, behind a sign or without one. The digits from ten on are letters, small or
capital, and a numeral denotes the number that has its digits in the base. A minus sign stands
before numerals with sign only.
-/

namespace ServoBus.Text

def smallDigits : List Char :=
  ['0', '1', '2', '3', '4', '5', '6', '7', '8', '9', 'a', 'b', 'c', 'd', 'e', 'f']

def capitalDigits : List Char :=
  ['0', '1', '2', '3', '4', '5', '6', '7', '8', '9', 'A', 'B', 'C', 'D', 'E', 'F']

/-- The character is this digit of the base. -/
def DigitIn (base : Nat) (c : Char) (d : Nat) : Prop :=
  d < base ∧ (smallDigits[d]? = some c ∨ capitalDigits[d]? = some c)

/-- Digits that denote a number in the base, the most significant one first. -/
def NumeralIn (base : Nat) (cs : List Char) (n : Nat) : Prop :=
  cs ≠ [] ∧ ∃ ds, List.Forall₂ (DigitIn base) cs ds ∧ Nat.ofDigits base ds.reverse = n

inductive UnsignedIn (base : Nat) : List Char → Nat → Prop
  | bare {cs n} : NumeralIn base cs n → UnsignedIn base cs n
  | plus {cs n} : NumeralIn base cs n → UnsignedIn base ('+' :: cs) n

inductive SignedIn (base : Nat) : List Char → Int → Prop
  | positive {cs n} : UnsignedIn base cs n → SignedIn base cs n
  | negative {cs n} : NumeralIn base cs n → SignedIn base ('-' :: cs) (-n)

/-- Reading on from zero, each digit is worth a power of the base. -/
theorem foldl_eq_ofDigits (base : Nat) (ds : List Nat) :
    ds.foldl (fun n d => base * n + d) 0 = Nat.ofDigits base ds.reverse := by
  rw [Nat.ofDigits_eq_foldr, List.foldr_reverse]
  simp only [Nat.cast_id, Nat.add_comm]

section

variable {base : Nat} (hbase : base ≤ 16)

include hbase

theorem digitIn_iff {c : Char} {d : Nat} :
    DigitIn base c d ↔ d < base ∧
      (d < 10 ∧ c.toNat = 48 + d ∨ 10 ≤ d ∧ (c.toNat = 87 + d ∨ c.toNat = 55 + d)) := by
  refine and_congr_right fun hd => ?_
  have hlt : d < 16 := Nat.lt_of_lt_of_le hd hbase
  interval_cases d <;>
    simp only [smallDigits, capitalDigits, List.getElem?_cons_zero, List.getElem?_cons_succ,
      Option.some.injEq, ← Char.toNat_inj, Char.reduceToNat] <;>
    omega

theorem digit?_iff {c : Char} {d : Nat} : digit? base c = some d ↔ DigitIn base c d := by
  have hle (a b : Char) : a ≤ b ↔ a.toNat ≤ b.toNat := Iff.rfl
  rw [digitIn_iff hbase]
  simp only [digit?, Option.filter_eq_some_iff, decide_eq_true_iff, hle, Char.reduceToNat]
  constructor
  · rintro ⟨h, hd⟩
    refine ⟨hd, ?_⟩
    split_ifs at h with hdigit hsmall hcapital <;> cases h
    · omega
    · omega
    · omega
  · rintro ⟨hd, h⟩
    refine ⟨?_, hd⟩
    split_ifs
    · exact congrArg some (by omega)
    · exact congrArg some (by omega)
    · exact congrArg some (by omega)
    · omega

theorem readDigits_iff {cs : List Char} {m n : Nat} :
    readDigits base m cs = some n ↔
      ∃ ds, List.Forall₂ (DigitIn base) cs ds ∧ ds.foldl (fun n d => base * n + d) m = n := by
  induction cs generalizing m with
  | nil => simp
  | cons c cs ih =>
    simp only [readDigits_cons, Option.bind_eq_some_iff, digit?_iff hbase, ih,
      List.forall₂_cons_left_iff]
    constructor
    · rintro ⟨d, hd, ds, hds, hn⟩
      exact ⟨d :: ds, ⟨d, ds, hd, hds, rfl⟩, hn⟩
    · rintro ⟨_, ⟨d, ds, hd, hds, rfl⟩, hn⟩
      exact ⟨d, hd, ds, hds, hn⟩

theorem natural?_iff {cs : List Char} {n : Nat} :
    natural? base cs = some n ↔ NumeralIn base cs n := by
  cases cs with
  | nil => exact iff_of_false (fun h => nomatch h) fun h => h.1 rfl
  | cons c cs =>
    refine (readDigits_iff hbase).trans ?_
    simp only [foldl_eq_ofDigits, NumeralIn, ne_eq, reduceCtorEq, not_false_eq_true, true_and]

/-- A sign is no digit. -/
theorem NumeralIn.head_ne {cs : List Char} {n : Nat} (h : NumeralIn base cs n) :
    cs.head? ≠ some '+' ∧ cs.head? ≠ some '-' := by
  obtain ⟨-, ds, hds, -⟩ := h
  cases hds with
  | nil => exact ⟨nofun, nofun⟩
  | cons hd _ =>
    obtain ⟨hlt, hrange⟩ := (digitIn_iff hbase).1 hd
    constructor
    · rintro ⟨⟩
      simp only [Char.reduceToNat] at hrange
      omega
    · rintro ⟨⟩
      simp only [Char.reduceToNat] at hrange
      omega

theorem unsigned?_iff {cs : List Char} {n : Nat} :
    unsigned? base cs = some n ↔ UnsignedIn base cs n := by
  constructor
  · rw [unsigned?.eq_def]
    split <;> intro h
    · exact .plus ((natural?_iff hbase).1 h)
    · exact .bare ((natural?_iff hbase).1 h)
  · rintro (h | h)
    · rw [unsigned?.eq_def]
      split
      · exact absurd rfl (h.head_ne hbase).1
      · exact (natural?_iff hbase).2 h
    · exact (natural?_iff hbase).2 h

theorem signed?_iff {cs : List Char} {z : Int} :
    signed? base cs = some z ↔ SignedIn base cs z := by
  constructor
  · rw [signed?.eq_def]
    split <;> intro h <;> obtain ⟨n, hn, rfl⟩ := Option.map_eq_some_iff.1 h
    · exact .positive (.plus ((natural?_iff hbase).1 hn))
    · exact .negative ((natural?_iff hbase).1 hn)
    · exact .positive (.bare ((natural?_iff hbase).1 hn))
  · rintro ((h | h) | h)
    · rw [signed?.eq_def]
      split
      · exact absurd rfl (h.head_ne hbase).1
      · exact absurd rfl (h.head_ne hbase).2
      · exact congrArg (Option.map Int.ofNat) ((natural?_iff hbase).2 h)
    · exact congrArg (Option.map Int.ofNat) ((natural?_iff hbase).2 h)
    · exact congrArg (Option.map fun n => -Int.ofNat n) ((natural?_iff hbase).2 h)

theorem word32?_iff {cs : List Char} {w : UInt32} :
    word32? base cs = some w ↔ UnsignedIn base cs w.toNat := by
  simp only [word32?, Option.bind_eq_some_iff, unsigned?_iff hbase, Option.ite_none_right_eq_some,
    Option.some.injEq]
  constructor
  · rintro ⟨n, hn, hlt, rfl⟩
    rwa [UInt32.toNat_ofNat_of_lt' hlt]
  · intro h
    exact ⟨w.toNat, h, w.toNat_lt, UInt32.ofNat_toNat⟩

theorem signedWord32?_iff {cs : List Char} {w : Int32} :
    signedWord32? base cs = some w ↔ SignedIn base cs w.toInt := by
  simp only [signedWord32?, Option.bind_eq_some_iff, signed?_iff hbase,
    Option.ite_none_right_eq_some, Option.some.injEq]
  constructor
  · rintro ⟨n, hn, ⟨hle, hlt⟩, rfl⟩
    rwa [Int32.toInt_ofInt_of_le hle hlt]
  · intro h
    exact ⟨w.toInt, h, ⟨w.le_toInt, w.toInt_lt⟩, Int32.ofInt_toInt w⟩

end

end ServoBus.Text
