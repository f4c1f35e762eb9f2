import Numerals.Locale.Ancestry
import Numerals.Pattern.SyntaxError

/-!
# Formatting errors
-/

namespace Numerals

/-- Why a formatter cannot be built or adjusted, or a value cannot be formatted. -/
inductive FormatError where
  | badPattern (e : SyntaxError)
  /-- No locale up to root defines a pattern for the category. -/
  | missingRootPattern (category : Category)
  | inheritance (fault : InheritanceFault)
  /-- The value has more fraction digits than these, and must not be rounded. -/
  | roundingNecessary (fractionDigits : Nat)
  | notANumber
  | zeroMultiplier
  deriving DecidableEq

def FormatError.message : FormatError → String
  | badPattern e => e.message
  | missingRootPattern category => "root locale defines no " ++ category.name ++ " pattern"
  | inheritance fault => fault.message
  | roundingNecessary n => "rounding necessary to fit " ++ toString n ++ " fraction digits"
  | notANumber => "value is not a number"
  | zeroMultiplier => "multiplier must be non-zero"

end Numerals
