import ServoBus.Decimal.Literal
import ServoBus.Decimal.Positional
import ServoBus.Decimal.Whole
import ServoBus.Text.Blank
import ServoBus.Text.Caseless
import ServoBus.Text.Numeral

/-!
# Parameter values

A parameter has one of five kinds, and a text that is given for it is read
accordingly, without the blanks around it. A bit has several words for either
value; whole numbers may be written in hexadecimal behind `0x`; a string is any
text.

Every value can be used as any kind. The views as numbers wrap whole numbers, clamp
doubles and see nothing in a string.
-/

namespace ServoBus.Param

inductive Kind where
  | bit
  | u32
  | s32
  | float
  | string
deriving DecidableEq, Repr

inductive Value where
  | bit (b : Bool)
  | u32 (v : UInt32)
  | s32 (v : Int32)
  | float (x : Float)
  | string (s : String)
deriving DecidableEq, Repr

/-- The words for a bit that is set. -/
def onWords : List String := ["1", "true", "on", "yes"]

/-- The words for a bit that is not set. -/
def offWords : List String := ["0", "false", "off", "no"]

def bit? (s : String) : Option Bool :=
  if onWords.any (Text.sameCaseless · s) then some true
  else if offWords.any (Text.sameCaseless · s) then some false
  else none

/-- The base of a numeral and its digits: the mark of a base comes first, before
any sign. -/
def splitBase : List Char → Nat × List Char
  | '0' :: 'x' :: cs => (16, cs)
  | '0' :: 'X' :: cs => (16, cs)
  | cs => (10, cs)

def u32? (cs : List Char) : Option UInt32 := Text.word32? (splitBase cs).1 (splitBase cs).2

def s32? (cs : List Char) : Option Int32 := Text.signedWord32? (splitBase cs).1 (splitBase cs).2

namespace Value

def kind : Value → Kind
  | bit _ => .bit
  | u32 _ => .u32
  | s32 _ => .s32
  | float _ => .float
  | string _ => .string

/-- Reads a value from a text without blanks at its ends. -/
def ofTrimmed? (k : Kind) (s : String) : Option Value :=
  match k with
  | .bit => (bit? s).map bit
  | .u32 => (u32? s.toList).map u32
  | .s32 => (s32? s.toList).map s32
  | .float => (Decimal.float? s.toList).map float
  | .string => some (string s)

def ofText? (k : Kind) (s : String) : Option Value := ofTrimmed? k (Text.trim s)

theorem kind_of_ofText? {k : Kind} {s : String} {v : Value} (h : ofText? k s = some v) :
    v.kind = k := by
  cases k <;> simp only [ofText?, ofTrimmed?, Option.map_eq_some_iff, Option.some.injEq] at h
  case string => rw [← h, kind]
  all_goals
    obtain ⟨_, -, rfl⟩ := h
    rfl

def text : Value → String
  | bit b => if b then "1" else "0"
  | u32 v => toString v.toNat
  | s32 v => toString v.toInt
  | float x => Decimal.text x
  | string s => s

def asBool : Value → Bool
  | bit b => b
  | u32 v => v != 0
  | s32 v => v != 0
  | float x => x != 0
  | string s => !s.isEmpty

def asU32 : Value → UInt32
  | bit b => if b then 1 else 0
  | u32 v => v
  | s32 v => v.toUInt32
  | float x => x.toUInt32
  | string _ => 0

def asS32 : Value → Int32
  | bit b => if b then 1 else 0
  | u32 v => v.toInt32
  | s32 v => v
  | float x => Int32.ofInt (Decimal.whole 32 x)
  | string _ => 0

def asFloat : Value → Float
  | bit b => if b then 1 else 0
  | u32 v => v.toFloat
  | s32 v => Float.ofInt v.toInt
  | float x => x
  | string _ => 0

def asString : Value → String
  | string s => s
  | _ => ""

end Value

end ServoBus.Param
