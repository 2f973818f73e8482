/-!
# Comparison without regard to case

Keywords and configuration names are compared after the letters `A` to `Z` have
been replaced by `a` to `z`. No other character has a case here: a letter beyond
ASCII equals only itself.
-/

namespace ServoBus.Text

/-- The characters of a text with ASCII letters in lower case. -/
def fold (s : String) : List Char := s.toList.map Char.toLower

/-- Two texts are the same up to the case of ASCII letters. -/
def sameCaseless (s t : String) : Bool := fold s == fold t

@[simp] theorem sameCaseless_iff {s t : String} : sameCaseless s t = true ↔ fold s = fold t := by
  simp [sameCaseless]

theorem sameCaseless_self (s : String) : sameCaseless s s = true := by simp

/-- The value of the first key that is the same text up to case. -/
def lookupCaseless {α : Type} (table : List (String × α)) (key : String) : Option α :=
  (table.find? fun row => sameCaseless row.1 key).map (·.2)

theorem lookupCaseless_nil {α : Type} (key : String) :
    lookupCaseless ([] : List (String × α)) key = none := rfl

theorem lookupCaseless_cons {α : Type} (row : String × α) (table : List (String × α))
    (key : String) :
    lookupCaseless (row :: table) key =
      if sameCaseless row.1 key then some row.2 else lookupCaseless table key := by
  cases h : sameCaseless row.1 key <;> simp [lookupCaseless, h]

end ServoBus.Text
