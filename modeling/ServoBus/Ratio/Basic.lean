import ServoBus.Checked
import ServoBus.Decimal.Literal
import ServoBus.Ratio.Convergent
import ServoBus.Text.Blank

/-!
# Ratios

A gear or encoder ratio is written as a numerator and a denominator with `/` or `:`
between them, and is then taken as it stands. Or it is written as a decimal, which
is replaced by a ratio whose denominator is bounded.

A ratio with a part that is zero is accepted, but it is hardly meant: decoding it
leaves a warning.
-/

namespace ServoBus

structure Ratio where
  numerator : Int32
  denominator : UInt32
deriving DecidableEq, Repr

namespace Ratio

/-- The bound for ratios whose denominator nothing else bounds. -/
def defaultBound : UInt32 := 32768

def asFloat (r : Ratio) : Float := Float.ofInt r.numerator.toInt / r.denominator.toFloat

def hasZeroPart (r : Ratio) : Bool := r.numerator == 0 || r.denominator == 0

def isSeparator (c : Char) : Bool := c == '/' || c == ':'

/-- The ratio of two numerals, with blanks around each. -/
def explicit? (left right : List Char) : Option Ratio :=
  (Text.signedWord32? 10 (Text.trimBlanks left)).bind fun n =>
    (Text.word32? 10 (Text.trimBlanks right)).map fun d => ⟨n, d⟩

/-- The ratio of a numerator and a denominator that need not fit. -/
def ofParts? (n d : Int) : Option Ratio :=
  if d ≠ 0 ∧ (-0x80000000 ≤ n ∧ n < 0x80000000) ∧ 0 ≤ d ∧ d < 0x100000000 then
    some ⟨Int32.ofInt n, UInt32.ofInt d⟩
  else none

/-- The ratio that an expansion ends with, with a sign. -/
def ofExpansion? {α : Type} (e : Expansion α) (negative : Bool) (x : α) (bound : Nat) :
    Option Ratio :=
  let c := e.best bound x
  ofParts? (if negative then -c.numerator else c.numerator) c.denominator

/-- The ratio close to a double, with a bounded denominator. -/
def ofFloat? (x : Float) (bound : Nat) : Option Ratio :=
  if x.isFinite ∧ bound ≠ 0 then ofExpansion? Float.expansion (x < 0) x.abs bound else none

/-- The ratio denoted by a text without blanks at its ends. The first separator
counts. -/
def ofText? (cs : List Char) (bound : Nat) : Option Ratio :=
  match cs.span (!isSeparator ·) with
  | (left, _ :: right) => explicit? left right
  | (_, []) => (Decimal.float? cs).bind (ofFloat? · bound)

def decode (text : String) (bound : UInt32) : Checked Ratio := do
  let text := Text.trim text
  match ofText? text.toList bound.toNat with
  | none => throw (.invalidRatio text)
  | some r =>
    if r.hasZeroPart then
      Logged.warn s!"ratio {Text.quote text} has a zero part, this is probably a configuration error"
    pure r

end Ratio

end ServoBus
