import Numerals.Proofs.Format.Construction

/-!
# Catalogs with one more locale

Data for one more locale leave all the others as they are (`Catalog.ancestry_append`): a parent that
is named was there before, and so was root. Hence formatters for another locale are the same over
both catalogs, which `Formatter.make_append` says together with what they are made of.
-/

namespace Numerals

namespace Catalog

variable {ds : List LocaleData} {d : LocaleData} {c c' : Catalog}

section
variable (h : ofList ds = .ok c) (h' : ofList (ds ++ [d]) = .ok c')
include h h'

theorem get?_append_of_get? {l : Locale} {e : LocaleData} (he : c.locales.get? l = some e) :
    c'.locales.get? l = some e := by
  obtain ⟨hmem, hid⟩ := (ofList_get?_eq_some_iff h).1 he
  exact (ofList_get?_eq_some_iff h').2 ⟨List.mem_append_left _ hmem, hid⟩

theorem get?_append_eq_none {l : Locale} (hl : l ≠ d.id) (hn : c.locales.get? l = none) :
    c'.locales.get? l = none := by
  refine ofList_get?_eq_none h' fun e he hid => ?_
  rcases List.mem_append.1 he with he | he
  · rw [(ofList_get?_eq_some_iff h).2 ⟨he, hid⟩] at hn
    cases hn
  · cases List.mem_singleton.1 he
    exact hl hid.symm

theorem ancestry_append {l : Locale} (hl : l ≠ d.id) :
    c'.locales.ancestry l = c.locales.ancestry l :=
  c.wellFormed.ancestry_of_extends c'.wellFormed (get?_append_of_get? h h') l
    (get?_append_eq_none h h' hl)

end

end Catalog

namespace Formatter

/-- A formatter depends on the data only through the ancestry of its locale, and on the currency
symbols only in its locale. -/
theorem make_congr {m m' : LocaleMap} {symbols symbols' : CurrencySymbols} {l : Locale}
    (h : m'.ancestry l = m.ancestry l) (hs : ∀ code, symbols' code l = symbols code l)
    (family : Family) : make family m' symbols' l = make family m symbols l := by
  have hpattern := LocaleMap.resolvePattern_congr h
  have hsymbols := LocaleMap.resolveSymbols_congr h
  have hcurrency := LocaleMap.resolveCurrency_congr h
  cases family with
  | number => simp only [make, number, ofPattern, hpattern, hsymbols]
  | integer => simp only [make, integer, ofPattern, hpattern, hsymbols]
  | currency =>
    simp only [make, currency, ofPattern, hpattern, hsymbols, hcurrency, withCurrencyCode,
      bind_assoc, pure_bind, hs]
  | percent => simp only [make, percent, ofPattern, hpattern, hsymbols]

open Catalog in
/-- **One more locale.** All that a locale other than that of the new data resolves to stays, and
whatever the family, one and the same formatter is made for it over both catalogs. -/
theorem make_append {ds : List LocaleData} {d : LocaleData} {c c' : Catalog} {l : Locale}
    (h : ofList ds = .ok c) (h' : ofList (ds ++ [d]) = .ok c') (hl : l ≠ d.id) :
    (∀ k, c'.locales.resolvePattern l k = c.locales.resolvePattern l k) ∧
      c'.locales.resolveSymbols l = c.locales.resolveSymbols l ∧
      c'.locales.resolveCurrency l = c.locales.resolveCurrency l ∧
      (∀ code, c'.symbolFor code l = c.symbolFor code l) ∧
      ∀ family, ∃ f, make family c.locales c.symbolFor l = .ok f ∧
        make family c'.locales c'.symbolFor l = .ok f := by
  have ha := ancestry_append h h' hl
  have hs (code : CurrencyCode) : c'.symbolFor code l = c.symbolFor code l := by
    rw [symbolFor, ha, symbolFor]
  refine ⟨LocaleMap.resolvePattern_congr ha, LocaleMap.resolveSymbols_congr ha,
    LocaleMap.resolveCurrency_congr ha, hs, fun family => ?_⟩
  obtain ⟨f, hf, -⟩ := exists_make c family c.symbolFor l
  exact ⟨f, hf, (make_congr ha hs family).trans hf⟩

/-- Japan falls back to root, whether or not there are data for Japanese. -/
theorem make_append_japan :
    ∃ c c', Catalog.ofList Bundled.rootData = .ok c ∧
      Catalog.ofList (Bundled.rootData ++ [Bundled.japanese[0]]) = .ok c' ∧
      ({ language := "ja", territory := "JP" } : Locale) ≠ Bundled.japanese[0].id ∧
      ∃ f, make .currency c.locales c.symbolFor { language := "ja", territory := "JP" } = .ok f ∧
        make .currency c'.locales c'.symbolFor { language := "ja", territory := "JP" } = .ok f := by
  have hroot : Catalog.defect Bundled.rootData (.ofList Bundled.rootData) = none := by
    decide +kernel
  have hboth : Catalog.defect (Bundled.rootData ++ [Bundled.japanese[0]])
      (.ofList (Bundled.rootData ++ [Bundled.japanese[0]])) = none := by
    decide +kernel
  have h := Catalog.ofList_of_defect hroot
  have h' := Catalog.ofList_of_defect hboth
  have hl : ({ language := "ja", territory := "JP" } : Locale) ≠ Bundled.japanese[0].id := by
    decide
  exact ⟨_, _, h, h', hl, (make_append h h' hl).2.2.2.2 .currency⟩

end Formatter

end Numerals
