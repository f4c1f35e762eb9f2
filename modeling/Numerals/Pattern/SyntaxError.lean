/-!
# Pattern syntax errors
-/

namespace Numerals

/-- What is wrong with a pattern text. -/
inductive SyntaxFlaw where
  | multipleDecimalSeparators
  /-- The last grouping separator has no digit after it. -/
  | emptyGroup
  | groupingInFraction
  | unterminatedQuote
  /-- Something other than a marker stands between two markers. -/
  | literalInNumberBody
  /-- An optional digit follows a required one in the integer part. -/
  | optionalAfterRequired
  /-- A required digit follows an optional one in the fraction part. -/
  | requiredAfterOptional
  | tooManySubPatterns
  deriving DecidableEq

def SyntaxFlaw.message : SyntaxFlaw → String
  | multipleDecimalSeparators => "multiple decimal separators"
  | emptyGroup => "grouping separator not followed by digits"
  | groupingInFraction => "grouping separator in fraction part"
  | unterminatedQuote => "unterminated quoted literal"
  | literalInNumberBody => "literal inside number body"
  | optionalAfterRequired => "'#' after '0' in integer part"
  | requiredAfterOptional => "'0' after '#' in fraction part"
  | tooManySubPatterns => "more than two sub-patterns"

/-- A flaw and the index of the character where it shows. -/
structure SyntaxError where
  position : Nat
  flaw : SyntaxFlaw
  deriving DecidableEq

def SyntaxError.message (e : SyntaxError) : String :=
  "pattern syntax error at position " ++ toString e.position ++ ": " ++ e.flaw.message

end Numerals
