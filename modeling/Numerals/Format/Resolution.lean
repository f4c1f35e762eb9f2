import Numerals.Format.Error

/-!
# Resolving locale data

What a locale uses, its own or inherited. A fault in the ancestry is an error only where the walk
has to go past it: for symbols always, for a pattern or a currency only if no locale before the
fault defines one.
-/

namespace Numerals.LocaleMap

/-- The pattern of a category. -/
def resolvePattern (m : LocaleMap) (l : Locale) (c : Category) : Except FormatError String :=
  match (m.ancestry l).nearest? (·.pattern c) with
  | .ok (some text) => .ok text
  | .ok none => .error (.missingRootPattern c)
  | .error fault => .error (.inheritance fault)

def resolveSymbols (m : LocaleMap) (l : Locale) : Except FormatError Symbols :=
  (m.ancestry l).symbols.mapError .inheritance

/-- The currency used in the locale, if there is one. -/
def resolveCurrency (m : LocaleMap) (l : Locale) : Except FormatError (Option CurrencyCode) :=
  ((m.ancestry l).nearest? (·.currency)).mapError .inheritance

end Numerals.LocaleMap
