import Numerals.Decimal.Basic

/-!
# Rounding

Rounding to a number of fraction digits keeps the digits before the cut and compares those after it
with half a unit. Whether the kept part grows by one unit is the rounding mode's decision.
-/

namespace Numerals

/-- How a magnitude between two neighbours is rounded. -/
inductive RoundingMode where
  /-- To the nearer neighbour, from the middle to the even one. -/
  | halfEven
  /-- To the nearer neighbour, from the middle away from zero. -/
  | halfUp
  /-- To the nearer neighbour, from the middle toward zero. -/
  | halfDown
  /-- Away from zero. -/
  | up
  /-- Toward zero. -/
  | down
  /-- Toward positive infinity. -/
  | ceiling
  /-- Toward negative infinity. -/
  | floor
  /-- Not at all: only what needs no rounding is accepted. -/
  | unnecessary
  deriving DecidableEq

/-- Whether a magnitude strictly between two neighbours goes to the larger one, where its distance
from the smaller compares with half a unit as `tail`, `odd` tells of the smaller, and `negative` of
the number that has the magnitude. -/
def RoundingMode.increments (mode : RoundingMode) (tail : Ordering) (odd negative : Bool) :
    Option Bool :=
  match mode with
  | halfEven => some (tail = .gt || tail = .eq && odd)
  | halfUp => some (tail ≠ .lt)
  | halfDown => some (tail = .gt)
  | up => some true
  | down => some false
  | ceiling => some !negative
  | floor => some negative
  | unnecessary => none

namespace Decimal

/-- How the magnitude 0.d₁d₂… compares with a half. -/
def compareHalf : List Digit → Ordering
  | [] => .lt
  | d :: ds => (compare d 5).then (if ds.all (· = 0) then .eq else .gt)

/-- The digits that a cut after `keep` digits leaves out, with the zeros before them where the cut
lies in front of the first digit. -/
def dropped (x : Decimal) (keep : Int) : List Digit :=
  List.replicate (-keep).toNat 0 ++ x.digits.drop keep.toNat

/-- The magnitude rounded to at most `maxFraction` fraction digits; `none` where the mode refuses
to round. -/
def round (x : Decimal) (maxFraction : Nat) (mode : RoundingMode) (negative : Bool) :
    Option Decimal :=
  let keep := x.point + maxFraction
  if x.digits.length ≤ keep then some x
  else
    let kept := Digits.toNat (x.digits.take keep.toNat)
    (mode.increments (compareHalf (x.dropped keep)) (kept % 2 = 1) negative).map fun up =>
      ofScaled (if up then kept + 1 else kept) (-maxFraction)

end Decimal

end Numerals
