import Numerals.Locale.Catalog

/-!
# Bundled locales

A small set of locale data that comes with the library; `catalog` is the catalog of them.
-/

namespace Numerals.Bundled

/-- Root defines everything, with Latin symbols. -/
def rootData : List LocaleData :=
  [ { id := .root
      decimalPattern := some "#,##0.###"
      currencyPattern := some "¤ #,##0.00"
      percentPattern := some "#,##0%"
      symbols := {
        decimal := some ".", group := some ",", minusSign := some "-", plusSign := some "+",
        percentSign := some "%", perMille := some "‰", infinity := some "∞",
        nan := some "NaN" }
      currencySymbols := .ofList [
        ("BRL", "R$"), ("CAD", "CA$"), ("CHF", "CHF"), ("CNY", "CN¥"), ("EUR", "€"),
        ("GBP", "£"), ("INR", "₹"), ("JPY", "JP¥"), ("MXN", "MX$"), ("TWD", "NT$"),
        ("USD", "US$")] } ]

def english : List LocaleData :=
  [ { id := { language := "en" }
      currencyPattern := some "¤#,##0.00"
      currencySymbols := .ofList [("JPY", "¥"), ("USD", "$")] },
    { id := { language := "en", territory := "US" }
      parent := some { language := "en" }
      currency := some (.ofText "USD") },
    { id := { language := "en", territory := "US", variant := "POSIX" }
      parent := some { language := "en", territory := "US" }
      decimalPattern := some "0.######"
      currencyPattern := some "¤ 0.00"
      percentPattern := some "0%"
      symbols := { infinity := some "INF" } },
    { id := { language := "en", territory := "GB" }
      parent := some { language := "en" }
      currency := some (.ofText "GBP") },
    { id := { language := "en", territory := "IN" }
      parent := some { language := "en" }
      decimalPattern := some "#,##,##0.###"
      currencyPattern := some "¤#,##,##0.00"
      percentPattern := some "#,##,##0%"
      currency := some (.ofText "INR") } ]

def german : List LocaleData :=
  [ { id := { language := "de" }
      currencyPattern := some "#,##0.00\u00a0¤"
      percentPattern := some "#,##0\u00a0%"
      symbols := { decimal := some ",", group := some "." } },
    { id := { language := "de", territory := "DE" }
      parent := some { language := "de" }
      currency := some (.ofText "EUR") },
    { id := { language := "de", territory := "CH" }
      parent := some { language := "de" }
      currencyPattern := some "¤\u00a0#,##0.00;¤-#,##0.00"
      percentPattern := some "#,##0%"
      currency := some (.ofText "CHF")
      symbols := { decimal := some ".", group := some "’" } } ]

def french : List LocaleData :=
  [ { id := { language := "fr" }
      currencyPattern := some "#,##0.00\u00a0¤"
      percentPattern := some "#,##0\u00a0%"
      symbols := { decimal := some ",", group := some "\u202f" } },
    { id := { language := "fr", territory := "FR" }
      parent := some { language := "fr" }
      currency := some (.ofText "EUR") },
    { id := { language := "fr", territory := "CA" }
      parent := some { language := "fr" }
      currency := some (.ofText "CAD")
      symbols := { group := some "\u00a0" }
      currencySymbols := .ofList [("CAD", "$"), ("USD", "$\u00a0US")] } ]

/-- A territory cannot inherit from another territory, so Mexico repeats what Latin America says. -/
def spanish : List LocaleData :=
  [ { id := { language := "es" }
      currencyPattern := some "#,##0.00\u00a0¤"
      percentPattern := some "#,##0\u00a0%"
      symbols := { decimal := some ",", group := some "." } },
    { id := { language := "es", territory := "ES" }
      parent := some { language := "es" }
      currency := some (.ofText "EUR") },
    { id := { language := "es", territory := "419" }
      parent := some { language := "es" }
      currencyPattern := some "¤#,##0.00"
      symbols := { decimal := some ".", group := some "," } },
    { id := { language := "es", territory := "MX" }
      parent := some { language := "es" }
      currencyPattern := some "¤#,##0.00"
      currency := some (.ofText "MXN")
      symbols := { decimal := some ".", group := some "," }
      currencySymbols := .ofList [("MXN", "$")] } ]

def portuguese : List LocaleData :=
  [ { id := { language := "pt" }
      currencyPattern := some "¤\u00a0#,##0.00"
      symbols := { decimal := some ",", group := some "." } },
    { id := { language := "pt", territory := "BR" }
      parent := some { language := "pt" }
      currency := some (.ofText "BRL") } ]

def japanese : List LocaleData :=
  [ { id := { language := "ja" }
      currencyPattern := some "¤#,##0.00"
      currencySymbols := .ofList [("CNY", "元"), ("JPY", "￥")] },
    { id := { language := "ja", territory := "JP" }
      parent := some { language := "ja" }
      currency := some (.ofText "JPY") } ]

/-- Traditional Chinese does not inherit from Chinese. -/
def chinese : List LocaleData :=
  [ { id := { language := "zh" }
      currencyPattern := some "¤#,##0.00"
      currencySymbols := .ofList [("CNY", "¥"), ("USD", "US$")] },
    { id := { language := "zh", script := "Hans" }
      parent := some { language := "zh" } },
    { id := { language := "zh", script := "Hans", territory := "CN" }
      parent := some { language := "zh", script := "Hans" }
      currency := some (.ofText "CNY") },
    { id := { language := "zh", script := "Hant" }
      parent := some .root
      currencyPattern := some "¤#,##0.00"
      symbols := { nan := some "非數值" }
      currencySymbols := .ofList [("TWD", "$")] },
    { id := { language := "zh", script := "Hant", territory := "TW" }
      parent := some { language := "zh", script := "Hant" }
      currency := some (.ofText "TWD") } ]

/-- All bundled locale data. -/
def localeData : List LocaleData :=
  rootData ++ english ++ german ++ french ++ spanish ++ portuguese ++ japanese ++ chinese

theorem defect_localeData : Catalog.defect localeData (.ofList localeData) = none := by
  decide +kernel

def catalog : Catalog := ⟨.ofList localeData, Catalog.wellFormed_of_defect defect_localeData⟩

end Numerals.Bundled
