import Mathlib.Data.List.TakeDrop
import ServoBus.Proofs.Text.Blank
import ServoBus.Ratio.Basic

/-!
# What a ratio is decoded from

Blanks around a text do not count, and a text that denotes no ratio is given back without them in
the fault. A text with a separator is taken apart at the first one, and any other text is a decimal.
-/

namespace ServoBus.Ratio

theorem isSeparator_iff {c : Char} : isSeparator c = true ↔ c = '/' ∨ c = ':' := by
  simp [isSeparator]

theorem isSeparator_eq_false_iff {c : Char} : isSeparator c = false ↔ c ≠ '/' ∧ c ≠ ':' := by
  simp [isSeparator]

theorem outcome_decode (text : String) (bound : UInt32) :
    (decode text bound).outcome =
      match ofText? (Text.trimBlanks text.toList) bound.toNat with
      | some r => .ok r
      | none => .error (.invalidRatio (Text.trim text)) := by
  simp only [decode, Text.toList_trim]
  cases ofText? (Text.trimBlanks text.toList) bound.toNat with
  | none => rfl
  | some r =>
    dsimp only
    split
    · rw [Checked.outcome_bind]
      rfl
    · rfl

theorem outcome_decode_eq_ok_iff {text : String} {bound : UInt32} {r : Ratio} :
    (decode text bound).outcome = .ok r ↔
      ofText? (Text.trimBlanks text.toList) bound.toNat = some r := by
  rw [outcome_decode]
  cases ofText? (Text.trimBlanks text.toList) bound.toNat <;> simp

/-- The first separator takes a text apart. -/
theorem ofText?_append_cons {left right : List Char} {s : Char} (bound : Nat)
    (hleft : ∀ c ∈ left, isSeparator c = false) (hs : isSeparator s = true) :
    ofText? (left ++ s :: right) bound = explicit? left right := by
  have hspan : (left ++ s :: right).span (!isSeparator ·) = (left, s :: right) := by
    rw [List.span_eq_takeWhile_dropWhile, List.takeWhile_append_of_pos (by simpa using hleft),
      List.dropWhile_append_of_pos (by simpa using hleft),
      List.takeWhile_cons_of_neg (by simpa using hs),
      List.dropWhile_cons_of_neg (by simpa using hs), List.append_nil]
  rw [ofText?, hspan]

/-- A text without separators is a decimal. -/
theorem ofText?_of_forall {cs : List Char} (bound : Nat)
    (h : ∀ c ∈ cs, isSeparator c = false) :
    ofText? cs bound = (Decimal.float? cs).bind (ofFloat? · bound) := by
  have hspan : cs.span (!isSeparator ·) = (cs, []) := by
    have hall : ∀ c ∈ cs, (!isSeparator c) = true := by simpa using h
    rw [List.span_eq_takeWhile_dropWhile, List.takeWhile_eq_self_iff.2 hall,
      List.dropWhile_eq_nil_iff.2 hall]
  rw [ofText?, hspan]

theorem decode_decimal_eq_ok_iff {text : String} {bound : UInt32} {r : Ratio}
    (htext : ∀ c ∈ text.toList, c ≠ '/' ∧ c ≠ ':') :
    (decode text bound).outcome = .ok r ↔
      ∃ x, Decimal.float? (Text.trimBlanks text.toList) = some x ∧
        ofFloat? x bound.toNat = some r := by
  rw [outcome_decode_eq_ok_iff, ofText?_of_forall bound.toNat fun c hc =>
    isSeparator_eq_false_iff.2 (htext c (Text.mem_of_mem_trimBlanks hc)), Option.bind_eq_some_iff]

/-- A double that becomes a ratio is finite, and its magnitude is expanded. -/
theorem ofFloat?_eq_some_iff {x : Float} {bound : Nat} {r : Ratio} :
    ofFloat? x bound = some r ↔
      (x.isFinite = true ∧ bound ≠ 0) ∧
        ofExpansion? Float.expansion (x < 0) x.abs bound = some r := by
  rw [ofFloat?, Option.ite_none_right_eq_some]

end ServoBus.Ratio
