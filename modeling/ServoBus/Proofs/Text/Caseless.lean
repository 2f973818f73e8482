import Mathlib
import ServoBus.Text.Caseless

/-!
# Words in any case

A word in small letters is compared without regard to case. The texts that are the same word are
those in which each letter is the one of the word or its capital.
-/

namespace ServoBus.Text

/-- The character is this one, or the capital of this small letter. -/
def InEitherCase (small c : Char) : Prop := c = small ∨ c = small.toUpper

/-- The word with each of its letters small or capital. -/
def InAnyCase (word cs : List Char) : Prop := List.Forall₂ InEitherCase word cs

theorem inAnyCase_self (word : List Char) : InAnyCase word word :=
  List.forall₂_same.2 fun _ _ => .inl rfl

theorem toLower_eq_iff {small c : Char} (h : small.toLower = small) :
    c.toLower = small ↔ InEitherCase small c := by
  constructor
  · rintro rfl
    by_cases hc : c.isUpper
    · right
      rw [Char.toUpper_toLower_eq_toUpper,
        Char.toUpper_eq_of_not_isLower (Char.not_isLower_of_isUpper hc)]
    · left
      exact (Char.toLower_eq_of_not_isUpper hc).symm
  · rintro (rfl | rfl)
    · exact h
    · rw [Char.toLower_toUpper_eq_toLower, h]

theorem map_toLower_eq_iff {word cs : List Char} (h : ∀ c ∈ word, c.toLower = c) :
    cs.map Char.toLower = word ↔ InAnyCase word cs := by
  induction word generalizing cs with
  | nil => simp [InAnyCase]
  | cons small word ih =>
    obtain ⟨hsmall, hword⟩ := List.forall_mem_cons.1 h
    cases cs with
    | nil => simp [InAnyCase]
    | cons c cs =>
      rw [List.map_cons, List.cons.injEq, toLower_eq_iff hsmall, ih hword, InAnyCase, InAnyCase,
        List.forall₂_cons]

/-- A text is the same as a word in small letters if it is the word in any case. -/
theorem sameCaseless_iff_inAnyCase {word s : String} (h : fold word = word.toList) :
    sameCaseless word s = true ↔ InAnyCase word.toList s.toList := by
  have hsmall : ∀ c ∈ word.toList, c.toLower = c :=
    List.map_inj_left.1 (h.trans (List.map_id _).symm)
  rw [sameCaseless_iff, h, ← map_toLower_eq_iff hsmall, fold, eq_comm]

end ServoBus.Text
