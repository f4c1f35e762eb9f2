import Numerals.Decimal.Shortest

/-!
# Binary floating-point numbers

The numbers of the 64-bit binary interchange format, as sign, exponent field and fraction field.
A finite number has the magnitude `significand · 2^exponent`; `magnitude` is the shortest decimal
that stands for it. Numbers of the 32-bit format are widened exactly (`ofBits32`).
-/

namespace Numerals

/-- A number of the 64-bit format by its fields. -/
structure Binary64 where
  negative : Bool
  exponentField : Fin 2048
  /-- The 52 bits of the fraction. -/
  fractionField : Fin 0x10000000000000
  deriving DecidableEq

namespace Binary64

/-! ## Bits -/

def ofBits (bits : UInt64) : Binary64 where
  negative := 0x8000000000000000 ≤ bits.toNat
  exponentField := Fin.ofNat 2048 (bits.toNat / 0x10000000000000)
  fractionField := Fin.ofNat 0x10000000000000 bits.toNat

def toBits (x : Binary64) : UInt64 :=
  UInt64.ofNat (x.negative.toNat * 0x8000000000000000 + x.exponentField * 0x10000000000000 +
    x.fractionField)

/-- The number of the 32-bit format with these bits. Its exponent field has 8 bits and is biased by
896 less; a fraction without the implicit leading bit is shifted until it has one, which the
fraction field then leaves out. -/
def ofBits32 (bits : UInt32) : Binary64 :=
  let negative : Bool := 0x80000000 ≤ bits.toNat
  let exponent := bits.toNat / 0x800000 % 256
  let fraction := bits.toNat % 0x800000
  let (exponent, fraction) :=
    if exponent = 255 then (2047, fraction)
    else if exponent ≠ 0 then (exponent + 896, fraction)
    else if fraction = 0 then (0, 0)
    else (fraction.log2 + 874, fraction * Nat.pow 2 (23 - fraction.log2))
  ⟨negative, Fin.ofNat 2048 exponent, Fin.ofNat 0x10000000000000 (fraction * 0x20000000)⟩

/-! ## Values -/

def isNaN (x : Binary64) : Bool := x.exponentField = 2047 && x.fractionField ≠ 0

def isInfinite (x : Binary64) : Bool := x.exponentField = 2047 && x.fractionField = 0

def isFinite (x : Binary64) : Bool := x.exponentField ≠ 2047

/-- The fraction with its implicit leading bit, which subnormal numbers do not have. -/
def significand (x : Binary64) : Nat :=
  if x.exponentField = 0 then x.fractionField else 0x10000000000000 + x.fractionField

def exponent (x : Binary64) : Int :=
  max (x.exponentField.val : Int) 1 - 1075

/-- The magnitude of a finite number that is whole. -/
def natAbs? (x : Binary64) : Option Nat :=
  if !x.isFinite then none
  else if 0 ≤ x.exponent then some (x.significand * Nat.pow 2 x.exponent.toNat)
  else
    let divisor := Nat.pow 2 (-x.exponent).toNat
    if x.significand % divisor = 0 then some (x.significand / divisor) else none

/-- The exponent of ten whose power makes the magnitude a whole number of units. -/
def unitExponent (x : Binary64) : Int := min x.exponent 0

/-- The significand's worth in units: a power of two, or of five where the unit is below one. -/
def unitFactor (x : Binary64) : Nat :=
  Nat.pow 2 x.exponent.toNat * Nat.pow 5 (-x.exponent).toNat

/-- What rounds to a finite number. The gap below a power of two is half as wide, except at the
least exponent; ends belong to the numbers with an even significand. -/
def roundingInterval (x : Binary64) : RoundingInterval :=
  let narrow := x.fractionField = 0 && 1 < x.exponentField
  { lower := (4 * x.significand - if narrow then 1 else 2) * x.unitFactor
    value := 4 * x.significand * x.unitFactor
    upper := (4 * x.significand + 2) * x.unitFactor
    closed := x.significand % 2 = 0 }

/-- The shortest decimal that stands for the magnitude of a finite number. -/
def magnitude (x : Binary64) : Decimal :=
  if x.significand = 0 then .zero
  else
    let i := x.roundingInterval
    let (n, scale) := i.shortest i.scaleBound
    .ofScaled n (x.unitExponent + scale)

end Binary64

end Numerals
