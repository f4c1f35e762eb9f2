import Numerals.Category
import Numerals.Table
import Numerals.Locale.Currency
import Numerals.Locale.Identifier
import Numerals.Locale.Symbols

/-!
# Locale data

What one locale defines itself: everything absent is inherited from its parent.
-/

namespace Numerals

/-- One locale's own data. -/
structure LocaleData where
  id : Locale
  /-- The locale to inherit from. -/
  parent : Option Locale := none
  decimalPattern : Option String := none
  currencyPattern : Option String := none
  percentPattern : Option String := none
  /-- The currency used in the locale. -/
  currency : Option CurrencyCode := none
  symbols : SymbolOverrides := {}
  /-- How currencies are displayed, by the text of their codes. -/
  currencySymbols : Table String String := {}
  deriving DecidableEq

namespace LocaleData

/-- The pattern the locale defines for a category. -/
def pattern (d : LocaleData) : Category → Option String
  | .decimal => d.decimalPattern
  | .currency => d.currencyPattern
  | .percent => d.percentPattern

/-- The locale that `d` inherits from. Without a parent of its own that is root, and root itself
inherits from none. -/
def parentId (d : LocaleData) : Option Locale :=
  d.parent.or (if d.id.isRoot then none else some .root)

/-- Displays the currency with this code, however the code is cased, as `symbol`. -/
def withCurrencySymbol (d : LocaleData) (code symbol : String) : LocaleData :=
  { d with currencySymbols := d.currencySymbols.insert (upperCase code) symbol }

end LocaleData

/-- Locale data by identifier. Nothing is checked: data may lie under an identifier that is not
its own, and parents may be missing. -/
abbrev LocaleMap := Table Locale LocaleData

/-- A map with every locale under its own identifier; of two with one identifier the later stays. -/
def LocaleMap.ofList (ds : List LocaleData) : LocaleMap :=
  Table.ofList (ds.map fun d => (d.id, d))

end Numerals
