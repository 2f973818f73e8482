import Mathlib.Data.List.Basic
import ServoBus.Proofs.Ratio.Decode
import ServoBus.Proofs.Text.Numeral

/-!
# Ratios that are written out

A ratio with a separator is what its two numerals say, whatever the bound for denominators is: it is
neither reduced nor is a zero refused. The parts are words with and without a sign, and blanks may
stand around each of them. Anything else is not a ratio.
-/

namespace ServoBus.Ratio

/-- The text without the blanks around it is taken apart at the first of its separators. -/
structure SplitsAt (text : String) (left : List Char) (s : Char) (right : List Char) : Prop where
  trimmed : Text.Trims text.toList (left ++ s :: right)
  separator : s = '/' ∨ s = ':'
  first : ∀ c ∈ left, c ≠ '/' ∧ c ≠ ':'

/-- The parts of a text are numerals of the two parts of a ratio. -/
structure Spells (left right : List Char) (r : Ratio) : Prop where
  numerator : ∃ cs, Text.Trims left cs ∧ Text.SignedNumeral cs r.numerator.toInt
  denominator : ∃ cs, Text.Trims right cs ∧ Text.UnsignedNumeral cs r.denominator.toNat

/-- The text is the ratio as it is printed, with one of the separators and any blanks. -/
def Prints (text : String) (r : Ratio) : Prop :=
  ∃ b₁ b₂ s b₃ b₄, (∀ c ∈ b₁ ++ b₂ ++ b₃ ++ b₄, Text.isBlank c = true) ∧ (s = '/' ∨ s = ':') ∧
    text.toList = b₁ ++ (toString r.numerator).toList ++ b₂ ++
      s :: (b₃ ++ (toString r.denominator).toList ++ b₄)

variable {text : String} {bound : UInt32} {left right : List Char} {s : Char} {r : Ratio}

theorem exists_splitsAt (h : ∃ c ∈ text.toList, c = '/' ∨ c = ':') :
    ∃ left s right, SplitsAt text left s right := by
  obtain ⟨c, hc, hsep⟩ := h
  have hblank : Text.isBlank c = false := by
    rcases hsep with rfl | rfl <;> decide
  obtain ⟨s, rest, hfound⟩ : ∃ s rest,
      (Text.trimBlanks text.toList).dropWhile (!isSeparator ·) = s :: rest := by
    refine List.exists_cons_of_ne_nil fun hnil => ?_
    have hall := List.dropWhile_eq_nil_iff.1 hnil c (Text.mem_trimBlanks hblank hc)
    simp [isSeparator_iff.2 hsep] at hall
  have happend := List.takeWhile_append_dropWhile (p := (!isSeparator ·))
    (l := Text.trimBlanks text.toList)
  rw [hfound] at happend
  refine ⟨(Text.trimBlanks text.toList).takeWhile (!isSeparator ·), s, rest, ?_, ?_, fun d hd => ?_⟩
  · rw [happend]
    exact Text.trims_trimBlanks _
  · have hhead := List.head?_dropWhile_not (!isSeparator ·) (Text.trimBlanks text.toList)
    rw [hfound] at hhead
    exact isSeparator_iff.1 (by simpa using hhead)
  · have hd := List.mem_takeWhile_imp hd
    exact isSeparator_eq_false_iff.1 (by simpa using hd)

theorem explicit?_eq_some_iff : explicit? left right = some r ↔ Spells left right r := by
  simp only [explicit?, Option.bind_eq_some_iff, Option.map_eq_some_iff,
    Text.signedWord32?_eq_some_iff, Text.word32?_eq_some_iff]
  constructor
  · rintro ⟨n, hn, d, hd, rfl⟩
    exact ⟨⟨_, Text.trims_trimBlanks left, hn⟩, ⟨_, Text.trims_trimBlanks right, hd⟩⟩
  · rintro ⟨⟨ns, hns, hn⟩, ⟨ds, hds, hd⟩⟩
    obtain rfl := hns.trimBlanks_eq
    obtain rfl := hds.trimBlanks_eq
    exact ⟨r.numerator, hn, r.denominator, hd, rfl⟩

theorem SplitsAt.ofText? (h : SplitsAt text left s right) (bound : Nat) :
    ofText? (Text.trimBlanks text.toList) bound = explicit? left right := by
  rw [h.trimmed.trimBlanks_eq]
  exact ofText?_append_cons bound (fun c hc => isSeparator_eq_false_iff.2 (h.first c hc))
    (isSeparator_iff.2 h.separator)

theorem SplitsAt.decode_eq_ok_iff (h : SplitsAt text left s right) :
    (decode text bound).outcome = .ok r ↔ Spells left right r := by
  rw [outcome_decode_eq_ok_iff, h.ofText?, explicit?_eq_some_iff]

theorem SplitsAt.decode_eq_error (h : SplitsAt text left s right)
    (hnone : ∀ r, ¬Spells left right r) :
    (decode text bound).outcome =
      .error (.invalidRatio (String.ofList (left ++ s :: right))) := by
  have hexplicit : explicit? left right = none :=
    Option.eq_none_iff_forall_ne_some.2 fun r hr => hnone r (explicit?_eq_some_iff.1 hr)
  rw [outcome_decode, h.ofText?, hexplicit, Text.trim, h.trimmed.trimBlanks_eq]

/-! ### Printed ratios -/

theorem ne_separator_of_mem {cs : List Char} {n : Int} (h : Text.SignedNumeral cs n) :
    ∀ c ∈ cs, c ≠ '/' ∧ c ≠ ':' := by
  refine h.forall_mem (fun c hc => ⟨?_, ?_⟩) (by decide) (by decide)
  · rintro rfl
    exact absurd hc (by decide)
  · rintro rfl
    exact absurd hc (by decide)

theorem ne_separator_of_isBlank {c : Char} (h : Text.isBlank c = true) : c ≠ '/' ∧ c ≠ ':' := by
  constructor
  · rintro rfl
    exact absurd h (by decide)
  · rintro rfl
    exact absurd h (by decide)

theorem Prints.spells (h : Prints text r) :
    ∃ left s right, SplitsAt text left s right ∧ Spells left right r := by
  obtain ⟨b₁, b₂, s, b₃, b₄, hblank, hs, htext⟩ := h
  simp only [List.forall_mem_append] at hblank
  obtain ⟨⟨⟨h₁, h₂⟩, h₃⟩, h₄⟩ := hblank
  have hn := Text.signedNumeral_toString r.numerator
  have hd := Text.unsignedNumeral_toString r.denominator
  generalize (toString r.numerator).toList = ns at hn htext
  generalize (toString r.denominator).toList = ds at hd htext
  refine ⟨ns ++ b₂, s, b₃ ++ ds, ⟨⟨⟨b₁, b₄, ?_, h₁, h₄⟩, ?_, ?_⟩, hs, ?_⟩,
    ⟨⟨ns, ?_, hn⟩, ⟨ds, ?_, hd⟩⟩⟩
  · rw [htext]
    simp only [List.append_assoc, List.cons_append]
  · intro c hc
    rw [List.append_assoc, List.head?_append_of_ne_nil _ hn.ne_nil] at hc
    exact Text.isBlank_of_mem hn c (List.mem_of_mem_head? hc)
  · intro c hc
    rw [List.append_cons, ← List.append_assoc,
      List.getLast?_append_of_ne_nil _ hd.signed.ne_nil] at hc
    exact Text.isBlank_of_mem hd.signed c (List.mem_of_mem_getLast? hc)
  · intro c hc
    rcases List.mem_append.1 hc with hc | hc
    · exact ne_separator_of_mem hn c hc
    · exact ne_separator_of_isBlank (h₂ c hc)
  · exact hn.unpadded.trims (List.forall_mem_nil _) h₂
  · rw [← List.append_nil (b₃ ++ ds)]
    exact hd.signed.unpadded.trims h₃ (List.forall_mem_nil _)

/-- A text with a separator is decoded to a ratio exactly if its parts spell that ratio, and is
refused otherwise. So a ratio that is printed is decoded to itself. -/
theorem decode_verbatim (text : String) (bound : UInt32) :
    ((∃ c ∈ text.toList, c = '/' ∨ c = ':') →
      ∃ left s right, SplitsAt text left s right ∧
        (∀ r, (decode text bound).outcome = .ok r ↔ Spells left right r) ∧
        ((∀ r, ¬Spells left right r) → (decode text bound).outcome =
          .error (.invalidRatio (String.ofList (left ++ s :: right))))) ∧
    ∀ r, Prints text r → (decode text bound).outcome = .ok r := by
  refine ⟨fun h => ?_, fun r h => ?_⟩
  · obtain ⟨left, s, right, hsplit⟩ := exists_splitsAt h
    exact ⟨left, s, right, hsplit, fun r => hsplit.decode_eq_ok_iff, hsplit.decode_eq_error⟩
  · obtain ⟨left, s, right, hsplit, hspells⟩ := h.spells
    exact hsplit.decode_eq_ok_iff.2 hspells

theorem decode_verbatim_zero :
    (∃ c ∈ " -10 :0".toList, c = '/' ∨ c = ':') ∧ Prints " -10 :0" ⟨-10, 0⟩ ∧
      (decode " -10 :0" 0).outcome = .ok ⟨-10, 0⟩ ∧
      ∃ left s right, SplitsAt " -10 :0" left s right ∧ Spells left right ⟨-10, 0⟩ := by
  have hsep : ∃ c ∈ " -10 :0".toList, c = '/' ∨ c = ':' := by simp
  have hprints : Prints " -10 :0" ⟨-10, 0⟩ :=
    ⟨[' '], [' '], ':', [], [], by simp; decide, Or.inr rfl, by decide⟩
  have hok := (decode_verbatim " -10 :0" 0).2 ⟨-10, 0⟩ hprints
  obtain ⟨left, s, right, hsplit, hiff, -⟩ := (decode_verbatim " -10 :0" 0).1 hsep
  exact ⟨hsep, hprints, hok, left, s, right, hsplit, (hiff _).1 hok⟩

end ServoBus.Ratio
