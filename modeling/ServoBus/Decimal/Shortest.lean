/-!
# Shortest decimals

The reals that round to a double form an interval around it, half way to either
neighbour, with its ends if the significand is even. `shortest` gives the decimal
with the fewest digits in that interval. It goes from coarse grids `10 ^ j` to
fine ones and looks on each at the two neighbours of the value: if any point of a
grid lies in the interval, one of these does. On the finest grid the value itself
is a point, so the search ends there without a bound on the number of digits.

Everything is a natural number in units of one power of ten, since
`m * 2 ^ -t = m * 5 ^ t * 10 ^ -t`; the bounds are odd multiples of a quarter of
the last place at worst, hence the factor four.
-/

namespace ServoBus.Decimal

/-- The interval of a double, in units of `10 ^ exponent`. -/
structure Interval where
  value : Nat
  lower : Nat
  upper : Nat
  closed : Bool
  exponent : Int

/-- The interval of a finite double without sign, given by its bits. The gap below
a power of two is half as wide as the gap above it. -/
def Interval.ofBits (bits : Nat) : Interval :=
  let hidden := 0x10000000000000
  let biased := bits / hidden % 0x800
  let low := bits % hidden
  let significand := if biased = 0 then low else hidden + low
  let power : Int := (max biased 1 : Nat) - 1077
  let unit := if 0 ≤ power then Nat.pow 2 power.toNat else Nat.pow 5 (-power).toNat
  let below := if low = 0 ∧ 1 < biased then 1 else 2
  { value := 4 * significand * unit
    lower := (4 * significand - below) * unit
    upper := (4 * significand + 2) * unit
    closed := significand % 2 == 0
    exponent := min power 0 }

namespace Interval

def contains (i : Interval) (n : Nat) : Bool :=
  if i.closed then i.lower ≤ n && n ≤ i.upper else i.lower < n && n < i.upper

/-- The multiple of `10 ^ j` in the interval that is nearest to the value, given by
its factor. Only the two neighbours of the value are looked at; of two that are
equally near it is the larger one. -/
def onGrid? (i : Interval) (j : Nat) : Option Nat :=
  let grid := Nat.pow 10 j
  let d := i.value / grid
  let below := i.value - d * grid
  let above := (d + 1) * grid - i.value
  match i.contains (d * grid), i.contains ((d + 1) * grid) with
  | true, true => some (if below < above then d else d + 1)
  | true, false => some d
  | false, true => some (d + 1)
  | false, false => none

/-- The point on the coarsest grid from `10 ^ j` down: its factor and its grid. -/
def search (i : Interval) : Nat → Nat × Nat
  | 0 => (i.value, 0)
  | j + 1 => match i.onGrid? (j + 1) with
    | some d => (d, j + 1)
    | none => i.search j

end Interval

/-- The shortest decimal of a finite double other than zero, as digits and a power
of ten. The bit of the sign is left out of account. -/
def shortest (x : Float) : Nat × Int :=
  let i := Interval.ofBits (x.toBits.toNat % 0x8000000000000000)
  let (digits, grid) := i.search (Nat.toDigits 10 i.value).length
  (digits, grid + i.exponent)

end ServoBus.Decimal
