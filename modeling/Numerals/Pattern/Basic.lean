import Numerals.DigitLimits

/-!
# Number patterns

A compiled pattern holds the affixes around a number and the layout of its digits. The affixes of
negative numbers may be given apart; the layout is always that of the positive sub-pattern.
-/

namespace Numerals

/-- How a currency placeholder is written. -/
inductive CurrencyDisplay where
  /-- By the symbol of the locale. -/
  | symbol
  /-- By the currency code. -/
  | isoCode
  deriving DecidableEq

/-- A piece of the text around a number. -/
inductive AffixPart where
  | literal (text : String)
  | percent
  | perMille
  | minus
  | plus
  | currency (display : CurrencyDisplay)
  deriving DecidableEq

/-- The text before or after a number. -/
abbrev Affix := List AffixPart

namespace Affix

/-- Puts a part in front; literals that meet become one. -/
def push : AffixPart → Affix → Affix
  | .literal s, .literal t :: parts => .literal (s ++ t) :: parts
  | part, parts => part :: parts

/-- The affix of a row of parts, adjacent literals made one. -/
def ofParts (parts : List AffixPart) : Affix :=
  parts.foldr push []

def hasCurrency (affix : Affix) : Bool :=
  affix.any fun
    | .currency _ => true
    | _ => false

end Affix

/-- What surrounds a number. -/
structure SubPattern where
  front : Affix := []
  back : Affix := []
  deriving DecidableEq

def SubPattern.hasCurrency (s : SubPattern) : Bool :=
  s.front.hasCurrency || s.back.hasCurrency

/-- How the digits of a number are laid out. The defaults are those of a pattern without digits. -/
structure Layout where
  /-- The digits of a group, counted from the decimal separator; 0 for no grouping. -/
  groupingSize : Nat := 0
  limits : DigitLimits := {}
  /-- Whether the decimal separator also follows a whole number. -/
  separatorAlwaysShown : Bool := false
  deriving DecidableEq

/-- A compiled pattern. -/
structure Pattern extends Layout where
  positive : SubPattern := {}
  /-- What surrounds a negative number, where the pattern says so. -/
  negative : Option SubPattern := none
  /-- Whether some affix shows the currency. -/
  hasCurrency : Bool := false
  deriving DecidableEq

end Numerals
