import Numerals.Decimal.Basic
import Numerals.Locale.Currency
import Numerals.Locale.Symbols
import Numerals.Pattern.Basic

/-!
# Rendering

A magnitude becomes text in three steps: its digits are cut and padded to the digit limits
(`NumberBody.ofDecimal`), grouped and joined by separators (`NumberBody.text`), and put between the
affixes for its sign (`Pattern.surround`).
-/

namespace Numerals

/-! ## Affixes -/

/-- What stands for the symbol of a currency that is not known. -/
def genericCurrencySign : String := "¤"

/-- What stands for the code of a currency that is not known. -/
def unknownCurrencyCode : String := "XXX"

def AffixPart.text (symbols : Symbols) (currency : Option Currency) : AffixPart → String
  | .literal text => text
  | .percent => symbols.percentSign
  | .perMille => symbols.perMille
  | .minus => symbols.minusSign
  | .plus => symbols.plusSign
  | .currency .symbol => (currency.map (·.symbol)).getD genericCurrencySign
  | .currency .isoCode => (currency.map (·.code.text)).getD unknownCurrencyCode

def Affix.text (symbols : Symbols) (currency : Option Currency) (affix : Affix) : String :=
  String.join (affix.map (AffixPart.text symbols currency))

def SubPattern.surround (s : SubPattern) (symbols : Symbols) (currency : Option Currency)
    (body : String) : String :=
  s.front.text symbols currency ++ body ++ s.back.text symbols currency

/-- Puts the affixes for a sign around a body. Without affixes for negative numbers these have a
minus sign before the positive ones. -/
def Pattern.surround (p : Pattern) (symbols : Symbols) (currency : Option Currency)
    (negative : Bool) (body : String) : String :=
  if negative then
    match p.negative with
    | some sub => sub.surround symbols currency body
    | none => symbols.minusSign ++ p.positive.surround symbols currency body
  else p.positive.surround symbols currency body

/-! ## Digits -/

/-- Puts a digit in front of groups of at most `size` digits. -/
def pushGrouped (size : Nat) (d : Digit) : List (List Digit) → List (List Digit)
  | [] => [[d]]
  | g :: gs => if g.length < size then (d :: g) :: gs else [d] :: g :: gs

/-- Cuts digits into groups of `size`, counted from the right. -/
def groups (size : Nat) (ds : List Digit) : List (List Digit) :=
  ds.foldr (pushGrouped size) []

/-- The digits with a separator between groups of `size`; none where the size is 0. -/
def groupedText (size : Nat) (separator : String) (ds : List Digit) : String :=
  if size = 0 then Digits.text ds
  else String.intercalate separator ((groups size ds).map Digits.text)

/-- The digits that are shown. -/
structure NumberBody where
  integer : List Digit
  fraction : List Digit
  deriving DecidableEq

namespace NumberBody

/-- The shown digits of a magnitude. Integer digits beyond the greatest number are cut off on the
left; zeros fill up to the least numbers. If nothing else is shown, a zero is. -/
def ofDecimal (x : Decimal) (limits : DigitLimits) : NumberBody :=
  let integer := x.integerDigits.drop (x.integerDigits.length - limits.maxInteger)
  let integer := List.replicate (limits.minInteger - integer.length) 0 ++ integer
  let fraction := x.fractionDigits
  let fraction := fraction ++ List.replicate (limits.minFraction - fraction.length) 0
  if integer.isEmpty && fraction.isEmpty then ⟨[0], []⟩ else ⟨integer, fraction⟩

/-- The body as text. The decimal separator shows where there is a fraction, or always. -/
def text (b : NumberBody) (groupingSize : Nat) (separatorAlwaysShown : Bool) (symbols : Symbols) :
    String :=
  let integer := groupedText groupingSize symbols.group b.integer
  if b.fraction.isEmpty && !separatorAlwaysShown then integer
  else integer ++ symbols.decimal ++ Digits.text b.fraction

end NumberBody

end Numerals
