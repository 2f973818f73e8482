import ServoBus.Text.Mark
import ServoBus.Text.Unassigned

/-!
# Characters that do not show

A character is hidden if a reader could not tell from the page that it is there, or
which one it is: controls, format characters, private characters, separators other
than the space, code points without a character, marks that are drawn on the character
before them, and letters that only fill a place.

Halfwidth sound marks extend the character before them, too, but they are letters that
stand beside it, and so they show.
-/

namespace ServoBus.Text

/-- Controls, format characters, surrogates, private characters and all separators but
the space, as of Unicode 17. -/
def controlRanges : List (Nat × Nat) :=
  [(0x0, 0x1f), (0x7f, 0xa0), (0xad, 0xad), (0x600, 0x605), (0x61c, 0x61c), (0x6dd, 0x6dd),
   (0x70f, 0x70f), (0x890, 0x891), (0x8e2, 0x8e2), (0x1680, 0x1680), (0x180e, 0x180e),
   (0x2000, 0x200f), (0x2028, 0x202f), (0x205f, 0x2064), (0x2066, 0x206f), (0x3000, 0x3000),
   (0xd800, 0xf8ff), (0xfeff, 0xfeff), (0xfff9, 0xfffb), (0x110bd, 0x110bd), (0x110cd, 0x110cd),
   (0x13430, 0x1343f), (0x1bca0, 0x1bca3), (0x1d173, 0x1d17a), (0xe0001, 0xe0001),
   (0xe0020, 0xe007f), (0xf0000, 0xffffd), (0x100000, 0x10fffd)]

example : isAscending controlRanges = true := by decide +kernel

example : countRanges controlRanges = 139769 := by decide +kernel

/-- Letters of Hangul that fill the place of a missing one and are not drawn. -/
def fillerRanges : List (Nat × Nat) :=
  [(0x115f, 0x1160), (0x3164, 0x3164), (0xffa0, 0xffa0)]

/-- Printable ASCII, the bulk of all text, is decided without the tables. -/
def isHidden (c : Char) : Bool :=
  if 0x20 ≤ c.toNat ∧ c.toNat < 0x7f then false
  else [controlRanges, unassignedRanges, markRanges, fillerRanges].any (inRanges · c.toNat)

end ServoBus.Text
