import Numerals.Binary64

/-!
# Numeric values

A numeric value is an integer of 64 bits or a binary floating-point number. Before it is formatted,
a floating-point number that is whole and not too large counts as an integer (`normalized`); then
`quantity` tells its sign and its exact decimal magnitude.
-/

namespace Numerals

inductive Numeric where
  | integer (n : Int64)
  /-- Meant for integers that are too large for the signed ones. -/
  | unsigned (n : UInt64)
  | real (x : Binary64)
  deriving DecidableEq

/-- What a numeric value denotes. -/
inductive Quantity where
  | nan
  | infinite (negative : Bool)
  | finite (negative : Bool) (magnitude : Decimal)
  deriving DecidableEq

namespace Numeric

/-- An unsigned integer, as a signed one if it fits. -/
def ofUInt64 (n : UInt64) : Numeric :=
  if n.toNat < 0x8000000000000000 then integer (Int64.ofNat n.toNat) else unsigned n

/-- Up to this magnitude, 2^53, every integer is a binary floating-point number. -/
def exactBound : Nat := 0x20000000000000

/-- A floating-point number that is whole and within the exact bound becomes an integer. -/
def normalized : Numeric → Numeric
  | real x =>
    match x.natAbs? with
    | some n =>
      if n ≤ exactBound then integer (Int64.ofInt (if x.negative then -n else n)) else real x
    | none => real x
  | v => v

def quantity : Numeric → Quantity
  | integer n => .finite (n < 0) (.ofNat n.toInt.natAbs)
  | unsigned n => .finite false (.ofNat n.toNat)
  | real x =>
    if x.isNaN then .nan
    else if x.isInfinite then .infinite x.negative
    else .finite x.negative x.magnitude

end Numeric

/-- A value whose type is known only when it is formatted. -/
inductive Scalar where
  /-- A signed integer, or an unsigned one of at most 32 bits. -/
  | signed (n : Int64)
  | unsigned (n : UInt64)
  /-- A number of the 32-bit format, by its bits. -/
  | single (bits : UInt32)
  | double (x : Binary64)
  | numeric (v : Numeric)
  /-- Anything that is no number of at most 64 bits. -/
  | other
  deriving DecidableEq

/-- The numeric value of a scalar that is a number. -/
def Scalar.numeric? : Scalar → Option Numeric
  | signed n => some (.integer n)
  | unsigned n => some (.ofUInt64 n)
  | single bits => some (.real (.ofBits32 bits))
  | double x => some (.real x)
  | numeric v => some v
  | other => none

end Numerals
