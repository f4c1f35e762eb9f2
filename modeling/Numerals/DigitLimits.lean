/-!
# Digit limits

How many integer and fraction digits a number is shown with. Setting one bound moves the other
bound of its pair only if their order would break, so a pair in order stays in order.
-/

namespace Numerals

/-- The digit count that stands for no bound: the largest 64-bit count. -/
def unboundedDigits : Nat := 0xFFFFFFFFFFFFFFFF

/-- The least and the greatest number of integer and of fraction digits. -/
structure DigitLimits where
  minInteger : Nat := 1
  maxInteger : Nat := unboundedDigits
  minFraction : Nat := 0
  maxFraction : Nat := 0
  deriving DecidableEq

namespace DigitLimits

/-- The most integer digits that can be asked for as a minimum, since all are written out. -/
def mostMinInteger : Nat := 309

/-- The most fraction digits that can be asked for as a minimum. -/
def mostMinFraction : Nat := 340

def setMinInteger (l : DigitLimits) (n : Nat) : DigitLimits :=
  let least := min n mostMinInteger
  { l with minInteger := least, maxInteger := max l.maxInteger least }

def setMaxInteger (l : DigitLimits) (n : Nat) : DigitLimits :=
  { l with maxInteger := n, minInteger := min l.minInteger n }

def setMinFraction (l : DigitLimits) (n : Nat) : DigitLimits :=
  let least := min n mostMinFraction
  { l with minFraction := least, maxFraction := max l.maxFraction least }

def setMaxFraction (l : DigitLimits) (n : Nat) : DigitLimits :=
  { l with maxFraction := n, minFraction := min l.minFraction n }

/-! ## Order -/

/-- Both minimums are at most their maximums. -/
structure Ordered (l : DigitLimits) : Prop where
  integer : l.minInteger ≤ l.maxInteger
  fraction : l.minFraction ≤ l.maxFraction

variable {l : DigitLimits} (n : Nat)

theorem Ordered.setMinInteger (h : l.Ordered) : (l.setMinInteger n).Ordered :=
  ⟨Nat.le_max_right .., h.fraction⟩

theorem Ordered.setMaxInteger (h : l.Ordered) : (l.setMaxInteger n).Ordered :=
  ⟨Nat.min_le_right .., h.fraction⟩

theorem Ordered.setMinFraction (h : l.Ordered) : (l.setMinFraction n).Ordered :=
  ⟨h.integer, Nat.le_max_right ..⟩

theorem Ordered.setMaxFraction (h : l.Ordered) : (l.setMaxFraction n).Ordered :=
  ⟨h.integer, Nat.min_le_right ..⟩

end DigitLimits

end Numerals
