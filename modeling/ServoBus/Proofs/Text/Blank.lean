import Mathlib.Data.List.Basic
import Mathlib.Data.List.TakeWhile
import ServoBus.Text.Blank

/-!
# Text without the blanks at its ends

Trimming is told by what it gives: the text in the middle of three parts, where the first and the
last part are blank and the middle neither begins nor ends with a blank.
-/

namespace ServoBus.Text

structure Trims (cs ts : List Char) : Prop where
  surround : ∃ before behind, cs = before ++ ts ++ behind ∧
    (∀ c ∈ before, isBlank c = true) ∧ (∀ c ∈ behind, isBlank c = true)
  head : ∀ c ∈ ts.head?, isBlank c = false
  last : ∀ c ∈ ts.getLast?, isBlank c = false

/-- The text neither begins nor ends with a blank. -/
def Unpadded (cs : List Char) : Prop :=
  (∀ c ∈ cs.head?, isBlank c = false) ∧ ∀ c ∈ cs.getLast?, isBlank c = false

-- By the characters at the ends: a search would also find an instance that goes through all of
-- them.
instance (cs : List Char) : Decidable (Unpadded cs) :=
  @instDecidableAnd _ _ (Option.decidableForallMem ..) (Option.decidableForallMem ..)

/-- What neither begins nor ends with a blank is left when blanks around it are cut off. -/
theorem Unpadded.trims {cs before behind : List Char} (h : Unpadded cs)
    (hbefore : ∀ c ∈ before, isBlank c = true) (hbehind : ∀ c ∈ behind, isBlank c = true) :
    Trims (before ++ cs ++ behind) cs :=
  ⟨⟨before, behind, rfl, hbefore, hbehind⟩, h.1, h.2⟩

theorem Unpadded.trims_self {cs : List Char} (h : Unpadded cs) : Trims cs cs := by
  have htrims := h.trims (List.forall_mem_nil _) (List.forall_mem_nil _)
  rwa [List.nil_append, List.append_nil] at htrims

theorem dropWhile_isBlank_eq_self {cs : List Char} (h : ∀ c ∈ cs.head?, isBlank c = false) :
    cs.dropWhile isBlank = cs := by
  cases cs with
  | nil => rfl
  | cons c cs => exact List.dropWhile_cons_of_neg (by simp [h c rfl])

theorem isBlank_head?_dropWhile {cs : List Char} :
    ∀ c ∈ (cs.dropWhile isBlank).head?, isBlank c = false := by
  intro c hc
  have h := List.head?_dropWhile_not isBlank cs
  rw [Option.mem_def.1 hc] at h
  simpa using h

theorem trims_trimBlanks (cs : List Char) : Trims cs (trimBlanks cs) := by
  have hrest : cs.dropWhile isBlank =
      trimBlanks cs ++ ((cs.dropWhile isBlank).reverse.takeWhile isBlank).reverse := by
    rw [trimBlanks, ← List.reverse_append, List.takeWhile_append_dropWhile, List.reverse_reverse]
  refine ⟨⟨cs.takeWhile isBlank, ((cs.dropWhile isBlank).reverse.takeWhile isBlank).reverse, ?_,
    fun c hc => List.mem_takeWhile_imp hc,
    fun c hc => List.mem_takeWhile_imp (List.mem_reverse.1 hc)⟩, ?_, ?_⟩
  · rw [List.append_assoc, ← hrest, List.takeWhile_append_dropWhile]
  · intro c hc
    refine @isBlank_head?_dropWhile cs c ?_
    rw [hrest]
    exact List.mem_head?_append_of_mem_head? hc
  · intro c hc
    rw [trimBlanks, List.getLast?_reverse] at hc
    exact isBlank_head?_dropWhile c hc

/-- The blanks around a text are cut off. -/
theorem Trims.trimBlanks_eq {cs ts : List Char} (h : Trims cs ts) : trimBlanks cs = ts := by
  obtain ⟨⟨before, behind, rfl, hbefore, hbehind⟩, hhead, hlast⟩ := h
  have hfront : (ts ++ behind).dropWhile isBlank = if ts = [] then [] else ts ++ behind := by
    split
    · next hnil =>
      rw [hnil, List.nil_append]
      exact List.dropWhile_eq_nil_iff.2 hbehind
    · next hne =>
      refine dropWhile_isBlank_eq_self fun c hc => hhead c ?_
      rwa [List.head?_append_of_ne_nil _ hne] at hc
  rw [trimBlanks, List.append_assoc, List.dropWhile_append_of_pos hbefore, hfront]
  split
  · next hnil => exact hnil.symm
  · rw [List.reverse_append,
      List.dropWhile_append_of_pos fun c hc => hbehind c (List.mem_reverse.1 hc),
      dropWhile_isBlank_eq_self (by rwa [List.head?_reverse]), List.reverse_reverse]

theorem mem_of_mem_trimBlanks {cs : List Char} {c : Char} (h : c ∈ trimBlanks cs) : c ∈ cs := by
  obtain ⟨before, behind, hcs, -, -⟩ := (trims_trimBlanks cs).surround
  rw [hcs]
  exact List.mem_append_left _ (List.mem_append_right _ h)

/-- A character that is not blank is not cut off. -/
theorem mem_trimBlanks {cs : List Char} {c : Char} (hblank : isBlank c = false) (h : c ∈ cs) :
    c ∈ trimBlanks cs := by
  obtain ⟨before, behind, hcs, hbefore, hbehind⟩ := (trims_trimBlanks cs).surround
  rw [hcs, List.mem_append, List.mem_append] at h
  rcases h with (h | h) | h
  · rw [hbefore c h] at hblank
    cases hblank
  · exact h
  · rw [hbehind c h] at hblank
    cases hblank

end ServoBus.Text
