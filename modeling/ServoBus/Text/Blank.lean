import ServoBus.Text.Ranges

/-!
# Blank characters

White space is the set of 25 characters with the Unicode property of that name,
given as closed ranges of code points in ascending order. `trim` removes blanks
from both ends of a text; it is written on lists of characters, so that the
grammars read from trimmed text can be stated on lists throughout.
-/

namespace ServoBus.Text

def blankRanges : List (Nat × Nat) :=
  [(0x9, 0xd), (0x20, 0x20), (0x85, 0x85), (0xa0, 0xa0), (0x1680, 0x1680), (0x2000, 0x200a),
   (0x2028, 0x2029), (0x202f, 0x202f), (0x205f, 0x205f), (0x3000, 0x3000)]

example : isAscending blankRanges = true := by decide

example : countRanges blankRanges = 25 := by decide

def isBlank (c : Char) : Bool := inRanges blankRanges c.toNat

theorem isBlank_of_isWhitespace {c : Char} (h : c.isWhitespace = true) : isBlank c = true := by
  simp [Char.isWhitespace] at h
  rcases h with ((rfl | rfl) | rfl) | rfl <;> decide

/-- The characters without the blanks before the first and after the last
other character. -/
def trimBlanks (cs : List Char) : List Char :=
  ((cs.dropWhile isBlank).reverse.dropWhile isBlank).reverse

@[simp] theorem trimBlanks_nil : trimBlanks [] = [] := rfl

def trim (s : String) : String := String.ofList (trimBlanks s.toList)

@[simp] theorem toList_trim (s : String) : (trim s).toList = trimBlanks s.toList := by
  simp [trim]

end ServoBus.Text
