import Numerals.Format.Rendering
import Numerals.Format.Resolution
import Numerals.Format.Settings
import Numerals.Numeric
import Numerals.Pattern.Compile

/-!
# Formatters

A formatter holds a compiled pattern, the symbols of its locale and the settings in force. There
are four families, which differ in the pattern they take from the locale data and in the settings
they start with.
-/

namespace Numerals

/-- What a formatter is for. -/
inductive Family where
  | number
  | integer
  | currency
  | percent
  deriving DecidableEq

/-- The category of the patterns that a family uses. -/
def Family.category : Family → Category
  | number => .decimal
  | integer => .decimal
  | currency => .currency
  | percent => .percent

structure Formatter where
  family : Family
  /-- The locale that was asked for. -/
  locale : Locale
  pattern : Pattern
  symbols : Symbols
  settings : Settings
  deriving DecidableEq

namespace Formatter

/-! ## Construction -/

/-- A formatter with the settings that a pattern text asks for. -/
def ofPattern (family : Family) (data : LocaleMap) (l : Locale) (text : String) :
    Except FormatError Formatter := do
  let pattern ← (Pattern.compile text).mapError .badPattern
  let symbols ← data.resolveSymbols l
  return { family, locale := l, pattern, symbols, settings := .ofPattern pattern }

/-- Numbers as the decimal pattern shows them, with all their integer digits. -/
def number (data : LocaleMap) (l : Locale) : Except FormatError Formatter := do
  let text ← data.resolvePattern l .decimal
  let f ← ofPattern .number data l text
  let limits := f.settings.limits.setMaxInteger unboundedDigits
  return { f with settings := { f.settings with limits } }

/-- Whole numbers: the decimal pattern before its decimal separator. -/
def integer (data : LocaleMap) (l : Locale) : Except FormatError Formatter := do
  let text ← data.resolvePattern l .decimal
  let f ← ofPattern .integer data l (Pattern.integerOnly text)
  let limits := f.settings.limits.setMaxFraction 0
  return { f with settings :=
    { f.settings with limits, parseIntegerOnly := true, separatorAlwaysShown := false } }

/-- The formatter with another currency, displayed as `symbols` says for its locale. -/
def withCurrencyCode (f : Formatter) (symbols : CurrencySymbols) (code : CurrencyCode) :
    Formatter :=
  { f with settings := { f.settings with currency := some ⟨code, symbols code f.locale⟩ } }

/-- Amounts in the currency of the locale, if it has one. -/
def currency (data : LocaleMap) (symbols : CurrencySymbols) (l : Locale) :
    Except FormatError Formatter := do
  let text ← data.resolvePattern l .currency
  let f ← ofPattern .currency data l text
  match ← data.resolveCurrency l with
  | some code => return f.withCurrencyCode symbols code
  | none => return f

/-- Ratios in whole percent. -/
def percent (data : LocaleMap) (l : Locale) : Except FormatError Formatter := do
  let text ← data.resolvePattern l .percent
  let f ← ofPattern .percent data l text
  let limits := f.settings.limits.setMaxFraction 0
  return { f with settings := { f.settings with limits, multiplier := .hundred } }

/-- The formatter of a family. -/
def make (family : Family) (data : LocaleMap) (symbols : CurrencySymbols) (l : Locale) :
    Except FormatError Formatter :=
  match family with
  | .number => number data l
  | .integer => integer data l
  | .currency => currency data symbols l
  | .percent => percent data l

/-! ## Adjustment -/

def adjust (f : Formatter) (a : Adjustment) : Except FormatError Formatter :=
  (f.settings.adjust f.locale a).map fun settings => { f with settings }

/-- The formatter after some adjustments; those that are rejected change nothing. -/
def adjustAll (f : Formatter) (as : List Adjustment) : Formatter :=
  as.foldl (fun f a => (f.adjust a).toOption.getD f) f

/-! ## Formatting -/

/-- The grouping in force. -/
def groupingSize (f : Formatter) : Nat :=
  if f.settings.groupingUsed then f.pattern.groupingSize else 0

/-- Puts the affixes for a sign around a body. -/
def surround (f : Formatter) (negative : Bool) (body : String) : String :=
  f.pattern.surround f.symbols f.settings.currency negative body

/-- A magnitude as text, without sign and affixes. -/
def bodyText (f : Formatter) (x : Decimal) : String :=
  (NumberBody.ofDecimal x f.settings.limits).text f.groupingSize f.settings.separatorAlwaysShown
    f.symbols

/-- A magnitude multiplied and rounded as the settings say, for a product of this sign. -/
def scaled (f : Formatter) (negative : Bool) (magnitude : Decimal) : Option Decimal :=
  (magnitude.mul f.settings.multiplier.natAbs).round f.settings.limits.maxFraction
    f.settings.roundingMode negative

/-- What is not a number shows as the symbol for that alone; infinity shows between affixes. A
product that rounds to zero has no sign. -/
def formatQuantity (f : Formatter) : Quantity → Except FormatError String
  | .nan => .ok f.symbols.nan
  | .infinite negative =>
    .ok (f.surround (negative != f.settings.multiplier.isNegative) f.symbols.infinity)
  | .finite negative magnitude =>
    let negative := negative != f.settings.multiplier.isNegative
    match f.scaled negative magnitude with
    | none => .error (.roundingNecessary f.settings.limits.maxFraction)
    | some x => .ok (f.surround (negative && !x.isZero) (f.bodyText x))

def format (f : Formatter) (v : Numeric) : Except FormatError String :=
  f.formatQuantity v.normalized.quantity

/-- Formats a value that may be something other than a number. -/
def formatScalar (f : Formatter) (v : Scalar) : Except FormatError String :=
  match v.numeric? with
  | some n => f.format n
  | none => .error .notANumber

end Formatter

end Numerals
