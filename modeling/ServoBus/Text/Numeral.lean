/-!
# Numerals

Digits in a base up to sixteen, read and written. A numeral is a nonempty list of
digits; a signed numeral may have one sign before it. There are no separators and
no blanks inside. Addresses and codes are written in lower-case hexadecimal,
padded with zeros on the left.
-/

namespace ServoBus.Text

/-- The value of a digit, if it is one in this base. -/
def digit? (base : Nat) (c : Char) : Option Nat :=
  let value? :=
    if '0' ≤ c ∧ c ≤ '9' then some (c.toNat - '0'.toNat)
    else if 'a' ≤ c ∧ c ≤ 'z' then some (c.toNat - 'a'.toNat + 10)
    else if 'A' ≤ c ∧ c ≤ 'Z' then some (c.toNat - 'A'.toNat + 10)
    else none
  value?.filter (· < base)

/-- Reads on from a value, most significant digit first. -/
def readDigits (base : Nat) : Nat → List Char → Option Nat
  | n, [] => some n
  | n, c :: cs => (digit? base c).bind fun d => readDigits base (base * n + d) cs

@[simp] theorem readDigits_nil (base n : Nat) : readDigits base n [] = some n := rfl

theorem readDigits_cons (base n : Nat) (c : Char) (cs : List Char) :
    readDigits base n (c :: cs) =
      (digit? base c).bind fun d => readDigits base (base * n + d) cs := rfl

/-- Reading a longer numeral is reading on from the value of its first part. -/
theorem readDigits_append (base n : Nat) (cs ds : List Char) :
    readDigits base n (cs ++ ds) = (readDigits base n cs).bind (readDigits base · ds) := by
  induction cs generalizing n with
  | nil => rfl
  | cons c cs ih =>
    rw [List.cons_append, readDigits_cons, readDigits_cons]
    cases digit? base c with
    | none => rfl
    | some d => exact ih _

def natural? (base : Nat) : List Char → Option Nat
  | [] => none
  | cs => readDigits base 0 cs

/-- A numeral that may start with a plus sign. -/
def unsigned? (base : Nat) : List Char → Option Nat
  | '+' :: cs => natural? base cs
  | cs => natural? base cs

/-- A numeral that may start with a plus or a minus sign. -/
def signed? (base : Nat) : List Char → Option Int
  | '+' :: cs => (natural? base cs).map Int.ofNat
  | '-' :: cs => (natural? base cs).map fun n => -Int.ofNat n
  | cs => (natural? base cs).map Int.ofNat

/-- A word of 32 bits without sign; a value that does not fit is no such word. -/
def word32? (base : Nat) (cs : List Char) : Option UInt32 :=
  (unsigned? base cs).bind fun n => if n < 0x100000000 then some (UInt32.ofNat n) else none

/-- A word of 32 bits with sign; a value that does not fit is no such word. -/
def signedWord32? (base : Nat) (cs : List Char) : Option Int32 :=
  (signed? base cs).bind fun n =>
    if -0x80000000 ≤ n ∧ n < 0x80000000 then some (Int32.ofInt n) else none

/-- Lower-case hexadecimal, with at least `width` digits. -/
def hex (width n : Nat) : String :=
  let digits := Nat.toDigits 16 n
  String.ofList (List.replicate (width - digits.length) '0' ++ digits)

example : hex 4 0x1a = "001a" := by decide +kernel

end ServoBus.Text
