import Numerals.Locale.Records
import Numerals.Proofs.Locale.Inheritance

/-!
# Entries for currencies

A currency is looked up by the text of its code, which is in upper case, and the entries of a locale
lie under their keys as they were written. So a locale decides about a code only by the entry under
the code itself (`Catalog.symbolFor_of_get?`), and an entry whose key is not in upper case is never
found.

`Catalog.ofList_symbolFor` says what this means for an entry that is the only one for its code up to
case, and for entries beside those that `LocaleData.withCurrencySymbol` makes. That a symbol which a
locale defines may not be found is shown by `Catalog.symbolFor_lower_case`.
-/

namespace Numerals

/-! ## Entries of one locale -/

theorem CurrencyCode.text_ofText (text : String) : (ofText text).text = upperCase text := rfl

namespace LocaleData

/-- The data with other entries for currencies. -/
def withEntries (d : LocaleData) (entries : Table String String) : LocaleData :=
  { d with currencySymbols := entries }

section
variable (d : LocaleData) (entries : Table String String)

@[simp] theorem id_withEntries : (d.withEntries entries).id = d.id := rfl

@[simp] theorem parent_withEntries : (d.withEntries entries).parent = d.parent := rfl

@[simp] theorem pattern_withEntries (k : Category) :
    (d.withEntries entries).pattern k = d.pattern k := by
  cases k <;> rfl

end

/-- Displays the currency under this key, as it is written, as `symbol`. -/
def withEntry (d : LocaleData) (key symbol : String) : LocaleData :=
  d.withEntries (d.currencySymbols.insert key symbol)

/-- Up to case, one key is the text of a code. -/
structure SingleEntry (d : LocaleData) (text key symbol : String) : Prop where
  entry : d.currencySymbols.get? key = some symbol
  sameCode : upperCase key = upperCase text
  alone : ∀ k, d.currencySymbols.contains k → upperCase k = upperCase text → k = key

theorem SingleEntry.get?_upperCase {d : LocaleData} {text key symbol : String}
    (h : d.SingleEntry text key symbol) :
    d.currencySymbols.get? (upperCase text) =
      if upperCase key = key then some symbol else none := by
  by_cases hkey : upperCase key = key
  · rw [if_pos hkey, ← h.sameCode, hkey]
    exact h.entry
  · rw [if_neg hkey]
    refine Option.eq_none_iff_forall_ne_some.2 fun s hs => hkey ?_
    have hcontains : d.currencySymbols.contains (upperCase text) := by simp [Table.contains, hs]
    rw [← h.alone _ hcontains (upperCase_upperCase text), upperCase_upperCase]

theorem singleEntry_of_eq {d : LocaleData} {text key symbol : String}
    (h : d.currencySymbols = .ofList [(key, symbol)]) (hcode : upperCase key = upperCase text) :
    d.SingleEntry text key symbol where
  entry := by
    rw [h, Table.get?_ofList_eq_some_iff (by simp)]
    exact List.mem_singleton_self _
  sameCode := hcode
  alone k hk _ := by
    obtain ⟨s, hs⟩ := Option.isSome_iff_exists.1 hk
    rw [h] at hs
    cases List.mem_singleton.1 (Table.mem_of_get?_ofList hs)
    rfl

theorem get?_withEntry (d : LocaleData) (key symbol : String) (code : CurrencyCode) :
    (d.withEntry key symbol).currencySymbols.get? code.text =
      if code.text = key then some symbol else d.currencySymbols.get? code.text :=
  Table.get?_insert _ _ _ _

theorem withCurrencySymbol_eq (d : LocaleData) (code symbol : String) :
    d.withCurrencySymbol code symbol = d.withEntry (upperCase code) symbol := rfl

/-- Under a key that is not in upper case an entry is found by no code. -/
theorem get?_withEntry_of_ne {key : String} (h : upperCase key ≠ key) (d : LocaleData)
    (symbol : String) (code : CurrencyCode) :
    (d.withEntry key symbol).currencySymbols.get? code.text =
      d.currencySymbols.get? code.text := by
  rw [get?_withEntry, if_neg]
  rintro rfl
  exact h code.upper

end LocaleData

/-! ## Entries in a catalog -/

namespace Catalog

/-- A locale decides about a code by the entry under its text, and leaves it to its parent
otherwise. -/
theorem symbolFor_of_get? {c : Catalog} {l : Locale} {d : LocaleData}
    (hd : c.locales.get? l = some d) (code : CurrencyCode) :
    c.symbolFor code l =
      (d.currencySymbols.get? code.text).getD (d.parentId.elim code.text (c.symbolFor code)) := by
  cases hp : d.parentId with
  | none =>
    obtain rfl := (c.wellFormed.parentId_eq_none_iff hd).1 hp
    exact (founds_of_get? hd).currencySymbol code
  | some p =>
    rw [← c.wellFormed.labelled hd]
    exact (inherits_of_parentId hd hp).currencySymbol code

/-- Catalogs with the same locales and parents, and with the same entries for a code, have the same
symbols for it. -/
theorem symbolFor_congr {c c' : Catalog} {code : CurrencyCode}
    (hsome : ∀ {l d}, c.locales.get? l = some d → ∃ d', c'.locales.get? l = some d' ∧
      d'.parentId = d.parentId ∧
      d'.currencySymbols.get? code.text = d.currencySymbols.get? code.text)
    (hnone : ∀ {l}, c.locales.get? l = none → c'.locales.get? l = none) (l : Locale) :
    c'.symbolFor code l = c.symbolFor code l := by
  have step {l : Locale} {d : LocaleData} (hd : c.locales.get? l = some d)
      (hparent : ∀ p ∈ d.parentId, c'.symbolFor code p = c.symbolFor code p) :
      c'.symbolFor code l = c.symbolFor code l := by
    obtain ⟨d', hd', hid, hentry⟩ := hsome hd
    rw [symbolFor_of_get? hd', symbolFor_of_get? hd, hid, hentry]
    cases hp : d.parentId with
    | none => rfl
    | some p =>
      have hp := hparent p hp
      simp only [Option.elim_some, hp]
  refine c.wellFormed.inherit
    (motive := fun l => c'.symbolFor code l = c.symbolFor code l) l ?_ (fun hd hp ih => ?_)
    fun hl ih => ?_
  · obtain ⟨r, hr, -⟩ := c.wellFormed.root
    refine step hr fun p hp => ?_
    rw [(c.wellFormed.parentId_eq_none_iff hr).2 rfl] at hp
    cases hp
  · refine step hd fun q hq => ?_
    cases hp.symm.trans hq
    exact ih
  · rw [(agree_root_of_get?_eq_none (hnone hl)).currencySymbol,
      (agree_root_of_get?_eq_none hl).currencySymbol]
    exact ih

section
variable {before after : List LocaleData} {d : LocaleData} {c : Catalog}
  (h : ofList (before ++ d :: after) = .ok c)
include h

/-- Whether data make a catalog does not depend on the entries for currencies. -/
theorem exists_ofList_withEntries (entries : Table String String) :
    ∃ c', ofList (before ++ d.withEntries entries :: after) = .ok c' := by
  obtain ⟨hdistinct, hroot, hparent, hpattern⟩ := acceptable_of_ofList h
  rw [exists_ofList_iff]
  constructor
  · simpa using hdistinct
  · simpa [or_and_right, exists_or] using hroot
  · simpa [or_imp, forall_and, or_and_right, exists_or] using hparent
  · simpa [or_imp, forall_and] using hpattern

/-- Other entries of one locale that are the same for a code leave all symbols for it as they
are. -/
theorem symbolFor_withEntries {entries : Table String String} {c' : Catalog}
    (h' : ofList (before ++ d.withEntries entries :: after) = .ok c')
    {code : CurrencyCode} (hcode : entries.get? code.text = d.currencySymbols.get? code.text)
    (l : Locale) : c'.symbolFor code l = c.symbolFor code l := by
  apply symbolFor_congr
  · intro l e he
    obtain ⟨hmem, hid⟩ := (ofList_get?_eq_some_iff h).1 he
    simp only [List.mem_append, List.mem_cons] at hmem
    have hother (he : e ∈ before ∨ e ∈ after) :
        e ∈ before ++ d.withEntries entries :: after := by
      rcases he with he | he <;> simp [he]
    rcases hmem with hmem | rfl | hmem
    · exact ⟨e, (ofList_get?_eq_some_iff h').2 ⟨hother (.inl hmem), hid⟩, rfl, rfl⟩
    · exact ⟨e.withEntries entries, (ofList_get?_eq_some_iff h').2 ⟨by simp, hid⟩, rfl, hcode⟩
    · exact ⟨e, (ofList_get?_eq_some_iff h').2 ⟨hother (.inr hmem), hid⟩, rfl, rfl⟩
  · intro l hl
    refine ofList_get?_eq_none h' fun e he hid => ?_
    obtain ⟨x, hx, hxid⟩ : ∃ x ∈ before ++ d :: after, x.id = l := by
      simp only [List.mem_append, List.mem_cons] at he
      rcases he with he | rfl | he
      · exact ⟨e, by simp [he], hid⟩
      · exact ⟨d, by simp, hid⟩
      · exact ⟨e, by simp [he], hid⟩
    rw [(ofList_get?_eq_some_iff h).2 ⟨hx, hxid⟩] at hl
    cases hl

end

/-- **Which entries are found.** Where up to case one key of a locale is the text of a code, the
locale displays the code as that entry says if the key is in upper case, and as its parent does
otherwise. So an entry more, under the key as it is written, acts as the one that
`withCurrencySymbol` makes if the key is in upper case, and as none otherwise. -/
theorem ofList_symbolFor {before after : List LocaleData} {d : LocaleData} {c : Catalog}
    (h : ofList (before ++ d :: after) = .ok c) :
    (∀ text key symbol, d.SingleEntry text key symbol →
      c.symbolFor (.ofText text) d.id =
        if upperCase key = key then symbol
        else d.parentId.elim (upperCase text) (c.symbolFor (.ofText text))) ∧
      ∀ key symbol, ∃ written entered,
        ofList (before ++ d.withEntry key symbol :: after) = .ok written ∧
        ofList (before ++ d.withCurrencySymbol key symbol :: after) = .ok entered ∧
        (∀ text, upperCase text = upperCase key →
          entered.symbolFor (.ofText text) d.id = symbol) ∧
        ∀ code l, written.symbolFor code l =
          if upperCase key = key then entered.symbolFor code l else c.symbolFor code l := by
  refine ⟨fun text key symbol hentry => ?_, fun key symbol => ?_⟩
  · have hd : c.locales.get? d.id = some d := (ofList_get?_eq_some_iff h).2 ⟨by simp, rfl⟩
    rw [symbolFor_of_get? hd, CurrencyCode.text_ofText, hentry.get?_upperCase]
    split <;> rfl
  · rw [LocaleData.withCurrencySymbol_eq]
    obtain ⟨written, hwritten⟩ := exists_ofList_withEntries h (d.currencySymbols.insert key symbol)
    obtain ⟨entered, hentered⟩ :=
      exists_ofList_withEntries h (d.currencySymbols.insert (upperCase key) symbol)
    refine ⟨written, entered, hwritten, hentered, fun text htext => ?_, fun code l => ?_⟩
    · have hd : entered.locales.get? d.id = some (d.withEntry (upperCase key) symbol) :=
        (ofList_get?_eq_some_iff hentered).2 ⟨by simp [LocaleData.withEntry], rfl⟩
      rw [symbolFor_of_get? hd, LocaleData.get?_withEntry, CurrencyCode.text_ofText, if_pos htext]
      rfl
    · split
      · next hkey =>
        rw [hkey] at hentered
        cases hwritten.symm.trans hentered
        rfl
      · next hkey =>
        have hcode := LocaleData.get?_withEntry_of_ne hkey d symbol code
        exact symbolFor_withEntries h hwritten hcode l

/-- An entry in lower case gives way to that of root, and one that is entered by its code does
not. -/
theorem ofList_symbolFor_english :
    ∃ (d : LocaleData) (c entered : Catalog), ofList (Bundled.rootData ++ [d]) = .ok c ∧
      d.SingleEntry "Usd" "usd" "$" ∧ c.symbolFor (.ofText "Usd") d.id = "US$" ∧
      ofList (Bundled.rootData ++ [d.withCurrencySymbol "usd" "$"]) = .ok entered ∧
      entered.symbolFor (.ofText "Usd") d.id = "$" := by
  let d : LocaleData := { id := { language := "en" }, currencySymbols := .ofList [("usd", "$")] }
  have h := @ofList_of_defect (Bundled.rootData ++ [d]) (by decide +kernel)
  have hlower : upperCase "usd" = "USD" := by decide +kernel
  have hmixed : upperCase "Usd" = "USD" := by decide +kernel
  have hentry := LocaleData.singleEntry_of_eq (d := d) rfl (hlower.trans hmixed.symm)
  have hroot := (ofList_get?_eq_some_iff h).2 ⟨List.mem_cons_self, rfl⟩
  obtain ⟨hfound, hentered⟩ := ofList_symbolFor h
  obtain ⟨-, entered, -, he, hsymbol, -⟩ := hentered "usd" "$"
  refine ⟨d, _, entered, h, hentry, ?_, he, hsymbol "Usd" (hmixed.trans hlower.symm)⟩
  rw [hfound _ _ _ hentry, if_neg (by simp [hlower])]
  exact (symbolFor_of_get? hroot _).trans (by decide +kernel)

/-- A symbol that a locale defines for a code in lower case is not found. -/
theorem symbolFor_lower_case :
    ∃ (d : LocaleData) (c : Catalog),
      LocaleData.ofText? ("[[locale]]\nid = \x7b language = \"root\" \x7d\n" ++
        "decimal_pattern = \"0\"\ncurrency_pattern = \"0\"\npercent_pattern = \"0\"\n" ++
        "[locale.currency_symbols]\nusd = \"$\"\n") = some [d] ∧
      ofList [d] = .ok c ∧ d.SingleEntry "usd" "usd" "$" ∧
      c.symbolFor (.ofText "usd") d.id ≠ "$" := by
  let d : LocaleData :=
    { id := .root, decimalPattern := some "0", currencyPattern := some "0"
      percentPattern := some "0", currencySymbols := .ofList [("usd", "$")] }
  have h := @ofList_of_defect [d] (by decide +kernel)
  have hd := (ofList_get?_eq_some_iff h).2 ⟨List.mem_cons_self, rfl⟩
  refine ⟨d, _, by decide +kernel, h, LocaleData.singleEntry_of_eq rfl rfl, ?_⟩
  rw [symbolFor_of_get? hd]
  decide +kernel

end Catalog

end Numerals
