import Numerals.Decimal.Rounding
import Numerals.Format.Error
import Numerals.Pattern.Basic

/-!
# Formatter settings

The settings of a formatter start from its pattern and are adjusted one at a time. Only a
multiplier of zero is rejected.
-/

namespace Numerals

/-- A factor for values; it is never zero. -/
structure Multiplier where
  value : Int64
  ne_zero : value ≠ 0 := by decide
  deriving DecidableEq

namespace Multiplier

def one : Multiplier := ⟨1, by decide⟩

def hundred : Multiplier := ⟨100, by decide⟩

def isNegative (m : Multiplier) : Bool := m.value < 0

def natAbs (m : Multiplier) : Nat := m.value.toInt.natAbs

end Multiplier

structure Settings where
  groupingUsed : Bool := true
  /-- Whether reading a number back should stop at the decimal separator. -/
  parseIntegerOnly : Bool := false
  roundingMode : RoundingMode := .halfEven
  /-- Whether the decimal separator also follows a whole number. -/
  separatorAlwaysShown : Bool := false
  currency : Option Currency := none
  limits : DigitLimits := {}
  multiplier : Multiplier := .one
  deriving DecidableEq

/-- The settings that a pattern asks for. -/
def Settings.ofPattern (p : Pattern) : Settings :=
  { separatorAlwaysShown := p.separatorAlwaysShown, limits := p.limits }

/-- How currencies are displayed in locales. -/
abbrev CurrencySymbols := CurrencyCode → Locale → String

/-- One change of the settings. -/
inductive Adjustment where
  | groupingUsed (used : Bool)
  | parseIntegerOnly (only : Bool)
  | roundingMode (mode : RoundingMode)
  | separatorAlwaysShown (shown : Bool)
  | minInteger (digits : Nat)
  | maxInteger (digits : Nat)
  | minFraction (digits : Nat)
  | maxFraction (digits : Nat)
  | multiplier (factor : Int64)
  | currency (c : Currency)
  /-- The currency with this code, displayed as `symbols` says for the locale. -/
  | currencyCode (code : CurrencyCode) (symbols : CurrencySymbols)

/-- The settings after an adjustment, for a formatter of the locale `l`. -/
def Settings.adjust (s : Settings) (l : Locale) : Adjustment → Except FormatError Settings
  | .groupingUsed used => .ok { s with groupingUsed := used }
  | .parseIntegerOnly only => .ok { s with parseIntegerOnly := only }
  | .roundingMode mode => .ok { s with roundingMode := mode }
  | .separatorAlwaysShown shown => .ok { s with separatorAlwaysShown := shown }
  | .minInteger digits => .ok { s with limits := s.limits.setMinInteger digits }
  | .maxInteger digits => .ok { s with limits := s.limits.setMaxInteger digits }
  | .minFraction digits => .ok { s with limits := s.limits.setMinFraction digits }
  | .maxFraction digits => .ok { s with limits := s.limits.setMaxFraction digits }
  | .multiplier factor =>
    if h : factor ≠ 0 then .ok { s with multiplier := ⟨factor, h⟩ } else .error .zeroMultiplier
  | .currency c => .ok { s with currency := some c }
  | .currencyCode code symbols => .ok { s with currency := some ⟨code, symbols code l⟩ }

end Numerals
