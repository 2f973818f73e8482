import ServoBus.Decimal.Whole

/-!
# Convergents

A number is approximated by the convergents of its continued fraction. The carrier
of the numbers is left open: an `Expansion` says what the whole part of a number is
and what is left of it, and may give up at either point. Doubles are one carrier,
where the whole part has to be a word of 64 bits with sign and a reciprocal beyond
2147483647 is taken for rounding noise.

The parts of a convergent are computed in such words. `best` goes on as long as they
do not overflow and the denominator stays within a bound. Quotients behind the first
are at least one if the arithmetic is any good, so denominators grow like the
Fibonacci numbers, which double in every two steps: the number of steps is bounded by
the logarithm of the bound.
-/

namespace ServoBus

structure Expansion (α : Type) where
  whole? : α → Option Int
  /-- The reciprocal of what a whole part leaves. -/
  rest? : α → Int → Option α

/-- The latest two of a sequence of convergents. -/
structure Convergent where
  numerator : Int
  denominator : Int
  lastNumerator : Int
  lastDenominator : Int
deriving DecidableEq, Repr

namespace Convergent

/-- What stands before the first convergent. -/
def start : Convergent := ⟨1, 0, 0, 1⟩

def extend (c : Convergent) (a : Int) : Convergent where
  numerator := c.numerator * a + c.lastNumerator
  denominator := c.denominator * a + c.lastDenominator
  lastNumerator := c.numerator
  lastDenominator := c.denominator

@[simp] theorem start_extend (a : Int) : start.extend a = ⟨a, 1, 1, 0⟩ := by
  simp [start, extend]

/-- The difference of the cross products. -/
def cross (c : Convergent) : Int :=
  c.numerator * c.lastDenominator - c.lastNumerator * c.denominator

@[simp] theorem cross_start : start.cross = 1 := rfl

/-- It changes its sign at every step. -/
@[simp] theorem cross_extend (c : Convergent) (a : Int) : (c.extend a).cross = -c.cross := by
  simp only [cross, extend]
  grind

/-- A value that is a word of 64 bits with sign. -/
def word? (n : Int) : Option Int :=
  if -0x8000000000000000 ≤ n ∧ n < 0x8000000000000000 then some n else none

theorem word?_eq_some_iff {n m : Int} :
    word? n = some m ↔ (-0x8000000000000000 ≤ n ∧ n < 0x8000000000000000) ∧ n = m := by
  rw [word?, Option.ite_none_right_eq_some, Option.some.injEq]

/-- A product and a sum, each in words. -/
def mulAdd? (m a k : Int) : Option Int := (word? (m * a)).bind fun p => word? (p + k)

theorem mulAdd?_eq_some_iff {m a k n : Int} :
    mulAdd? m a k = some n ↔
      (-0x8000000000000000 ≤ m * a ∧ m * a < 0x8000000000000000) ∧
        (-0x8000000000000000 ≤ n ∧ n < 0x8000000000000000) ∧ m * a + k = n := by
  simp only [mulAdd?, Option.bind_eq_some_iff, word?_eq_some_iff]
  constructor
  · rintro ⟨p, ⟨hp, rfl⟩, hn, rfl⟩
    exact ⟨hp, hn, rfl⟩
  · rintro ⟨hp, hn, rfl⟩
    exact ⟨m * a, ⟨hp, rfl⟩, hn, rfl⟩

/-- The next convergent, if its parts can be computed and its denominator is within
the bound. -/
def extend? (bound : Int) (c : Convergent) (a : Int) : Option Convergent := do
  let denominator ← mulAdd? c.denominator a c.lastDenominator
  guard (denominator ≤ bound)
  let numerator ← mulAdd? c.numerator a c.lastNumerator
  pure ⟨numerator, denominator, c.numerator, c.denominator⟩

end Convergent

namespace Expansion

variable {α : Type}

/-- The last convergent within the bound, in at most `steps` further steps. -/
def run (e : Expansion α) (bound : Nat) : Nat → α → Convergent → Convergent
  | 0, _, c => c
  | steps + 1, x, c =>
    match (e.whole? x).bind fun a => (c.extend? bound a).map fun d => (a, d) with
    | none => c
    | some (a, d) =>
      match e.rest? x a with
      | none => d
      | some y => e.run bound steps y d

/-- The last convergent of a number whose denominator is within the bound. -/
def best (e : Expansion α) (bound : Nat) (x : α) : Convergent :=
  e.run bound (2 * Nat.log2 bound + 4) x .start

end Expansion

/-- The continued fractions of doubles. -/
def Float.expansion : Expansion Float where
  whole? x :=
    if -9223372036854775808 ≤ x ∧ x < 9223372036854775808 then some (Decimal.whole 64 x) else none
  rest? x a :=
    let whole := Decimal.ofWhole a
    if x == whole then none
    else
      let y := 1 / (x - whole)
      if y > 2147483647 then none else some y

end ServoBus
