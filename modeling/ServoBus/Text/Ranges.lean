/-!
# Ranges of code points

A set of characters is given by closed ranges of code points. Tables list them in
ascending order and apart from each other, so that every set has one table and its
characters can be counted range by range.
-/

namespace ServoBus.Text

/-- A code point lies in one of the ranges. -/
def inRanges (ranges : List (Nat × Nat)) (n : Nat) : Bool :=
  ranges.any fun r => r.1 ≤ n && n ≤ r.2

theorem inRanges_iff {ranges : List (Nat × Nat)} {n : Nat} :
    inRanges ranges n = true ↔ ∃ r ∈ ranges, r.1 ≤ n ∧ n ≤ r.2 := by
  simp [inRanges]

/-- The ranges are in order, and there is a gap between any two. -/
def isAscending : List (Nat × Nat) → Bool
  | [] => true
  | [r] => r.1 ≤ r.2
  | r :: s :: rest => r.1 ≤ r.2 && r.2 + 1 < s.1 && isAscending (s :: rest)

/-- How many code points there are in ranges that do not meet. -/
def countRanges (ranges : List (Nat × Nat)) : Nat :=
  ranges.foldl (fun count r => count + (r.2 + 1 - r.1)) 0

end ServoBus.Text
