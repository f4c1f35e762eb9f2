import Numerals.Pattern.SyntaxError
import Numerals.Pattern.Token

/-!
# Digit layouts

The number body of a sub-pattern is the span from its first to its last marker. `Layout.ofBody`
reads it from left to right: optional digits, required digits and grouping separators up to the
decimal separator, then required and optional digits. The digits after the last grouping separator
make the group.
-/

namespace Numerals

/-- What has been read of the integer part of a number body. -/
structure IntegerPart where
  /-- The required digits. -/
  required : Nat := 0
  /-- The position of the last grouping separator. -/
  lastGroup : Option Nat := none
  /-- The digits after the last grouping separator, or all. -/
  grouped : Nat := 0
  deriving DecidableEq

/-- What has been read of the fraction part of a number body. -/
structure FractionPart where
  required : Nat := 0
  optional : Nat := 0
  deriving DecidableEq

/-- The grouping size, where the last group has a digit. -/
def IntegerPart.groupingSize (i : IntegerPart) : Except SyntaxError Nat :=
  match i.lastGroup with
  | none => .ok 0
  | some position => if i.grouped = 0 then .error ⟨position, .emptyGroup⟩ else .ok i.grouped

namespace Layout

/-- The layout of an integer part without a decimal separator. -/
def ofInteger (i : IntegerPart) : Except SyntaxError Layout := do
  let groupingSize ← i.groupingSize
  return { groupingSize, limits := { minInteger := i.required } }

/-- Reads what follows the decimal separator. -/
def readFraction (f : FractionPart) : List Lexeme → Except SyntaxError FractionPart
  | [] => .ok f
  | ⟨position, token⟩ :: rest =>
    match token with
    | .marker .required =>
      if 0 < f.optional then .error ⟨position, .requiredAfterOptional⟩
      else readFraction { f with required := f.required + 1 } rest
    | .marker .optional => readFraction { f with optional := f.optional + 1 } rest
    | .marker .point => .error ⟨position, .multipleDecimalSeparators⟩
    | .marker .group => .error ⟨position, .groupingInFraction⟩
    | .part _ => .error ⟨position, .literalInNumberBody⟩

/-- Reads a number body after `i` of its integer part. -/
def readBody (i : IntegerPart) : List Lexeme → Except SyntaxError Layout
  | [] => ofInteger i
  | ⟨position, token⟩ :: rest =>
    match token with
    | .marker .required =>
      readBody { i with required := i.required + 1, grouped := i.grouped + 1 } rest
    | .marker .optional =>
      if 0 < i.required then .error ⟨position, .optionalAfterRequired⟩
      else readBody { i with grouped := i.grouped + 1 } rest
    | .marker .group => readBody { i with lastGroup := some position, grouped := 0 } rest
    | .marker .point => do
      let layout ← ofInteger i
      let f ← readFraction {} rest
      return { layout with
        limits := { layout.limits with
          minFraction := f.required, maxFraction := f.required + f.optional }
        separatorAlwaysShown := f.required + f.optional = 0 }
    | .part _ => .error ⟨position, .literalInNumberBody⟩

/-- The layout of a number body; without a body that of a pattern without digits. -/
def ofBody : List Lexeme → Except SyntaxError Layout
  | [] => .ok {}
  | body => readBody {} body

end Layout

end Numerals
