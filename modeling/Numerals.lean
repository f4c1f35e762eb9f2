import Numerals.Binary64
import Numerals.Category
import Numerals.Decimal.Basic
import Numerals.Decimal.Rounding
import Numerals.Decimal.Shortest
import Numerals.DigitLimits
import Numerals.Format.Error
import Numerals.Format.Formatter
import Numerals.Format.Rendering
import Numerals.Format.Resolution
import Numerals.Format.Settings
import Numerals.Locale.Ancestry
import Numerals.Locale.Bundled
import Numerals.Locale.Catalog
import Numerals.Locale.Currency
import Numerals.Locale.Data
import Numerals.Locale.Identifier
import Numerals.Locale.Records
import Numerals.Locale.Symbols
import Numerals.Numeric
import Numerals.Pattern.Basic
import Numerals.Pattern.Compile
import Numerals.Pattern.Layout
import Numerals.Pattern.SyntaxError
import Numerals.Pattern.Token
import Numerals.Proofs.Decimal.InPlace
import Numerals.Proofs.Decimal.Numeral
import Numerals.Proofs.Decimal.Product
import Numerals.Proofs.Decimal.RoundTrip
import Numerals.Proofs.Decimal.Rounding
import Numerals.Proofs.Decimal.Shortest
import Numerals.Proofs.Decimal.Value
import Numerals.Proofs.Format.Body
import Numerals.Proofs.Format.Construction
import Numerals.Proofs.Format.CurrencyShown
import Numerals.Proofs.Format.Decoding
import Numerals.Proofs.Format.Extension
import Numerals.Proofs.Format.Limits
import Numerals.Proofs.Format.Minimums
import Numerals.Proofs.Format.Obstacles
import Numerals.Proofs.Format.Output
import Numerals.Proofs.Format.Runs
import Numerals.Proofs.Format.Separators
import Numerals.Proofs.Format.SignShown
import Numerals.Proofs.Format.SignSymmetry
import Numerals.Proofs.Format.WholeNumbers
import Numerals.Proofs.Format.WholeReals
import Numerals.Proofs.Locale.Acceptance
import Numerals.Proofs.Locale.Descent
import Numerals.Proofs.Locale.Inheritance
import Numerals.Proofs.Locale.SymbolEntries
import Numerals.Proofs.Locale.Walk
import Numerals.Proofs.Pattern.Cut
import Numerals.Proofs.Pattern.ErrorOrder
import Numerals.Proofs.Pattern.Flaws
import Numerals.Proofs.Pattern.Glyphs
import Numerals.Proofs.Pattern.Grammar
import Numerals.Proofs.Pattern.Groups
import Numerals.Proofs.Pattern.Image
import Numerals.Proofs.Pattern.IntegerOnly
import Numerals.Proofs.Pattern.NumberForm
import Numerals.Proofs.Pattern.Tiling
import Numerals.Table
import Numerals.Toml.Document
import Numerals.Toml.Line
import Numerals.Toml.Value
