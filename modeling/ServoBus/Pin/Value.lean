import ServoBus.Decimal.Whole

/-!
# Pin values

A pin carries a value of one of four types. Between a pin and a field of the process
image the value is a whole number, its raw value: a bit is one or zero, a word keeps
its low bits, and a double is rounded to the nearest or cut to a word of 64 bits.

A value put into a pin of another type takes the way over the raw value, with one
exception: a double sets a bit already if it is not zero.
-/

namespace ServoBus.Pin

inductive Kind where
  | bit
  | s32
  | u32
  | float
deriving DecidableEq, Repr

inductive Value where
  | bit (b : Bool)
  | s32 (v : Int32)
  | u32 (v : UInt32)
  | float (x : Float)
deriving DecidableEq, Repr

namespace Value

def kind : Value → Kind
  | bit _ => .bit
  | s32 _ => .s32
  | u32 _ => .u32
  | float _ => .float

def zero : Kind → Value
  | .bit => bit false
  | .s32 => s32 0
  | .u32 => u32 0
  | .float => float 0

@[simp] theorem kind_zero (k : Kind) : (zero k).kind = k := by
  cases k <;> rfl

def ofRaw (k : Kind) (raw : Int) : Value :=
  match k with
  | .bit => bit (raw != 0)
  | .s32 => s32 (Int32.ofInt raw)
  | .u32 => u32 (UInt32.ofInt raw)
  | .float => float (Float.ofInt raw)

@[simp] theorem kind_ofRaw (k : Kind) (raw : Int) : (ofRaw k raw).kind = k := by
  cases k <;> rfl

def raw : Value → Int
  | bit b => if b then 1 else 0
  | s32 v => v.toInt
  | u32 v => v.toNat
  | float x => Decimal.whole 64 x

/-- The value as one of another type. -/
def convert (k : Kind) (v : Value) : Value :=
  if v.kind = k then v
  else match k, v with
    | .bit, float x => bit (x != 0)
    | _, _ => ofRaw k v.raw

@[simp] theorem kind_convert (k : Kind) (v : Value) : (v.convert k).kind = k := by
  unfold convert
  split
  · assumption
  · split
    · rfl
    · exact kind_ofRaw ..

theorem convert_self (v : Value) : v.convert v.kind = v := if_pos rfl

end Value

end ServoBus.Pin
