import ServoBus.Text.Caseless
import ServoBus.Text.Numeral

/-!
# Decimal literals

A literal is an optional sign and then digits with an optional point, where at
least one digit stands on either side of it, and an optional exponent; or one of
the words `inf`, `infinity` and `nan` in any case. It denotes the nearest double,
of two equally near ones that with an even significand. The power of ten is
compared with the range of doubles first, so that a literal with a huge exponent
costs no more than any other.
-/

namespace ServoBus.Decimal

def infinity : Float := Float.ofBits 0x7ff0000000000000

def nan : Float := Float.ofBits 0x7ff8000000000000

/-- The double nearest to `digits * 10 ^ exponent`. From `10 ^ 310` on that is
infinity, and below `10 ^ -330` it is zero. -/
def nearest (digits : Nat) (exponent : Int) : Float :=
  let magnitude := exponent + (Nat.toDigits 10 digits).length
  if digits = 0 then 0
  else if 310 < magnitude then infinity
  else if magnitude < -330 then 0
  else Float.ofScientific digits (exponent < 0) exponent.natAbs

/-- The power of ten that ends a literal, zero if nothing is left. -/
def exponent? : List Char → Option Int
  | [] => some 0
  | 'e' :: cs => Text.signed? 10 cs
  | 'E' :: cs => Text.signed? 10 cs
  | _ => none

/-- The digits behind the point, and what follows them. -/
def fraction : List Char → List Char × List Char
  | '.' :: cs => cs.span Char.isDigit
  | cs => ([], cs)

/-- The digits of a literal without sign, read as one number, and its power of ten. -/
def number? (cs : List Char) : Option (Nat × Int) :=
  let (whole, rest) := cs.span Char.isDigit
  let (part, rest) := fraction rest
  (Text.natural? 10 (whole ++ part)).bind fun digits =>
    (exponent? rest).map fun e => (digits, e - part.length)

/-- The value of a literal without sign. -/
def magnitude? (cs : List Char) : Option Float :=
  let word := cs.map Char.toLower
  if word = "inf".toList ∨ word = "infinity".toList then some infinity
  else if word = "nan".toList then some nan
  else (number? cs).map fun (digits, exponent) => nearest digits exponent

def float? : List Char → Option Float
  | '+' :: cs => magnitude? cs
  | '-' :: cs => (magnitude? cs).map Float.neg
  | cs => magnitude? cs

end ServoBus.Decimal
