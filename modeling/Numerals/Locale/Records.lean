import Numerals.Locale.Catalog
import Numerals.Toml.Document

/-!
# Locale data as text

Locale data are written as an array `locale` of TOML records. Keys without a meaning are ignored;
a field of the wrong type, or a locale without an identifier, makes the whole text malformed.
-/

namespace Numerals

open Toml (Value Entries)

def Locale.ofValue? (v : Value) : Option Locale := do
  let fields ← v.fields? ["language", "script", "territory", "variant"]
  return {
    language := ← fields.required "language" Value.text?
    script := ← fields.optional "script" Value.text?
    territory := ← fields.optional "territory" Value.text?
    variant := ← fields.optional "variant" Value.text? }

def SymbolOverrides.ofValue? (v : Value) : Option SymbolOverrides := do
  let fields ← v.fields? ["decimal", "group", "minus_sign", "plus_sign", "percent_sign",
    "per_mille", "infinity", "nan"]
  return {
    decimal := ← fields.optional "decimal" Value.text?
    group := ← fields.optional "group" Value.text?
    minusSign := ← fields.optional "minus_sign" Value.text?
    plusSign := ← fields.optional "plus_sign" Value.text?
    percentSign := ← fields.optional "percent_sign" Value.text?
    perMille := ← fields.optional "per_mille" Value.text?
    infinity := ← fields.optional "infinity" Value.text?
    nan := ← fields.optional "nan" Value.text? }

/-- A table of texts; the keys stay as they are written. -/
def Table.ofValue? : Value → Option (Table String String)
  | .table _ entries => do
    let texts ← entries.mapM fun (key, v) => v.text?.map (key, ·)
    return .ofList texts
  | _ => none

def LocaleData.ofValue? (v : Value) : Option LocaleData := do
  let fields ← v.fields? ["id", "parent", "decimal_pattern", "currency_pattern",
    "percent_pattern", "currency", "symbols", "currency_symbols"]
  return {
    id := ← fields.required "id" Locale.ofValue?
    parent := ← fields.optional "parent" Locale.ofValue?
    decimalPattern := ← fields.optional "decimal_pattern" Value.text?
    currencyPattern := ← fields.optional "currency_pattern" Value.text?
    percentPattern := ← fields.optional "percent_pattern" Value.text?
    currency := (← fields.optional "currency" Value.text?).map CurrencyCode.ofText
    symbols := (← fields.optional "symbols" SymbolOverrides.ofValue?).getD {}
    currencySymbols := (← fields.optional "currency_symbols" Table.ofValue?).getD default }

/-- The locale data that a text holds; none where it does not name any. -/
def LocaleData.ofText? (text : String) : Option (List LocaleData) := do
  match (← Toml.read? text).lookup "locale" with
  | none => return []
  | some (.array _ elements) => elements.mapM ofValue?
  | some _ => none

namespace Catalog

/-- The catalog that a text holds. -/
def ofText (text : String) : Except CatalogError Catalog :=
  match LocaleData.ofText? text with
  | none => .error .malformed
  | some ds => ofList ds

/-- The catalog that a file holds, given its contents, if it could be read. -/
def ofContents : Option String → Except CatalogError Catalog
  | none => .error .unreadable
  | some text => ofText text

end Catalog

end Numerals
