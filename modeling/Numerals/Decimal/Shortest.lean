import Numerals.Decimal.Basic

/-!
# Shortest decimals

A binary floating-point number stands for all reals that round to it. Of the decimals among those,
the shortest has the fewest digits; of two with as few it is the nearer to the number, and of two
equally near the larger.

All bounds are whole multiples of one unit, so that the search is exact: grids of decimals are
tried from coarse to fine, and of each only the two neighbours of the number.
-/

namespace Numerals

/-- The numbers that round to a value, in quarters of a unit. -/
structure RoundingInterval where
  lower : Nat
  /-- The value itself, a whole number of units. -/
  value : Nat
  upper : Nat
  /-- Whether the ends belong to the interval. -/
  closed : Bool
  deriving DecidableEq

namespace RoundingInterval

def contains (i : RoundingInterval) (x : Nat) : Bool :=
  if i.closed then i.lower ≤ x && x ≤ i.upper else i.lower < x && x < i.upper

/-- The multiple of `10^scale` units that lies in the interval and is nearest to the value. -/
def nearest? (i : RoundingInterval) (scale : Nat) : Option Nat :=
  let step := 4 * Nat.pow 10 scale
  let n := i.value / step
  let below := i.contains (n * step)
  let above := i.contains ((n + 1) * step)
  if below && above then
    some (if i.value - n * step < (n + 1) * step - i.value then n else n + 1)
  else if above then some (n + 1)
  else if below then some n
  else none

/-- The shortest decimal of the interval as a number of units `10^scale`, where no longer scale
than the first argument has one. The scale 0 has the value itself. -/
def shortest (i : RoundingInterval) : Nat → Nat × Nat
  | 0 => (i.value / 4, 0)
  | scale + 1 =>
    match i.nearest? (scale + 1) with
    | some n => (n, scale + 1)
    | none => shortest i scale

/-- A scale beyond which no multiple lies in the interval but zero. -/
def scaleBound (i : RoundingInterval) : Nat := i.upper.log2 / 3 + 1

end RoundingInterval

end Numerals
