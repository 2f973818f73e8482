import ServoBus.Decimal.Literal
import ServoBus.Decimal.Shortest

/-!
# Positional notation

Doubles are written with their shortest digits in positional notation, whatever
their size: there is never an exponent, a whole number has no point, and zero
keeps its sign.
-/

namespace ServoBus.Decimal

/-- The digits of a number moved by a power of ten. -/
def positional (digits : Nat) (exponent : Int) : List Char :=
  let ds := Nat.toDigits 10 digits
  if 0 ≤ exponent then ds ++ List.replicate exponent.toNat '0'
  else
    let places := exponent.natAbs
    let ds := List.replicate (places + 1 - ds.length) '0' ++ ds
    ds.take (ds.length - places) ++ '.' :: ds.drop (ds.length - places)

def text (x : Float) : String :=
  let sign := if 0x8000000000000000 ≤ x.toBits.toNat then ['-'] else []
  if x.isNaN then "NaN"
  else if x.isInf then String.ofList (sign ++ "inf".toList)
  else if x == 0 then String.ofList (sign ++ ['0'])
  else
    let (digits, exponent) := shortest x
    String.ofList (sign ++ positional digits exponent)

example : text 1e21 = "1000000000000000000000" := by decide +kernel

example : text 0.1 = "0.1" := by decide +kernel

end ServoBus.Decimal
