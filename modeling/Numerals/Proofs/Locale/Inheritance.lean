import Mathlib.Data.List.Basic
import Numerals.Format.Resolution
import Numerals.Locale.Bundled
import Numerals.Proofs.Locale.Acceptance

/-!
# Inheritance in a catalog

In a well-formed map every parent is less specific than its child, so a climb never meets an
identifier again and always ends at root. What it yields is then the data of the locale followed by
the ancestry of its parent (`WellFormed.ancestry_of_parentId`), or by nothing at root
(`WellFormed.ancestry_root`); whatever is resolved over an ancestry is resolved by that recursion.
More data leave an ancestry as it is, unless they are for the locale itself
(`WellFormed.ancestry_of_extends`).

`Catalog.ofList_inherits` says so for every resolution in the catalog of some data.
-/

namespace Numerals

/-- An ancestry with a nearer member. -/
def Ancestry.cons (d : LocaleData) (a : Ancestry) : Ancestry :=
  { a with members := d :: a.members }

namespace LocaleMap

theorem getOrRoot?_of_get? {m : LocaleMap} {l : Locale} {d : LocaleData}
    (h : m.get? l = some d) : m.getOrRoot? l = some d := by
  rw [getOrRoot?, h, Option.some_or]

theorem ancestry_of_getOrRoot? {m : LocaleMap} {l : Locale} {d : LocaleData}
    (h : m.getOrRoot? l = some d) : m.ancestry l = m.climb [] d (mem_values_of_getOrRoot? h) := by
  unfold ancestry
  split
  · next h' => simp [h] at h'
  · next e h' =>
    cases h.symm.trans h'
    rfl

theorem ancestry_of_unknown {m : LocaleMap} {l : Locale} (h : m.get? l = none) :
    m.ancestry l = m.ancestry .root := by
  have hl : m.getOrRoot? l = m.getOrRoot? .root := by simp [getOrRoot?, h]
  cases hr : m.getOrRoot? .root with
  | none =>
    rw [hr] at hl
    unfold ancestry
    split
    · split
      · rfl
      · next h' => simp [hr] at h'
    · next h' => simp [hl] at h'
  | some d => rw [ancestry_of_getOrRoot? hr, ancestry_of_getOrRoot? (hl.trans hr)]

theorem climb_of_parentId_eq_none {m : LocaleMap} {visited : List Locale} {d : LocaleData}
    {hd : d ∈ m.values} (hv : d.id ∉ visited) (hp : d.parentId = none) :
    m.climb visited d hd = .cons d {} := by
  rw [climb, dif_neg hv]
  split
  · rfl
  · next h' => simp [hp] at h'

/-- The climb goes on at a less specific parent. -/
theorem climb_of_parentId {m : LocaleMap} {visited : List Locale} {d e : LocaleData} {p : Locale}
    {hd : d ∈ m.values} (hv : d.id ∉ visited) (hp : d.parentId = some p)
    (hs : p.specificity < d.id.specificity) (he : m.getOrRoot? p = some e) :
    m.climb visited d hd =
      .cons d (m.climb (d.id :: visited) e (mem_values_of_getOrRoot? he)) := by
  rw [climb, dif_neg hv]
  split
  · next h' => simp [hp] at h'
  · next q hq =>
    cases hp.symm.trans hq
    rw [if_neg (Nat.not_le.2 hs)]
    split
    · next h' => simp [he] at h'
    · next e' he' =>
      cases he.symm.trans he'
      rfl

/-! ## Well-formed maps -/

namespace WellFormed

variable {m : LocaleMap} (hm : m.WellFormed)
include hm

/-- A locale inherits from a less specific one of the map. -/
theorem parentId_spec {l p : Locale} {d : LocaleData} (hd : m.get? l = some d)
    (hp : d.parentId = some p) : p.specificity < l.specificity ∧ ∃ e, m.get? p = some e := by
  rcases Option.or_eq_some_iff.1 hp with hp | ⟨-, hp⟩
  · obtain ⟨hs, hc⟩ := hm.parent hd hp
    exact ⟨hs, Option.isSome_iff_exists.1 hc⟩
  · have hl : l ≠ .root := by
      rintro rfl
      simp [hm.labelled hd, Locale.isRoot] at hp
    cases (by simpa [hm.labelled hd, Locale.isRoot, hl] using hp : Locale.root = p)
    have := mt Locale.specificity_eq_zero_iff.1 hl
    obtain ⟨e, he, -⟩ := hm.root
    exact ⟨by rw [Locale.specificity_root]; omega, e, he⟩

theorem parentId_eq_none_iff {l : Locale} {d : LocaleData} (hd : m.get? l = some d) :
    d.parentId = none ↔ l = .root := by
  constructor
  · intro h
    simpa [LocaleData.parentId, hm.labelled hd, Locale.isRoot] using (Option.or_eq_none_iff.1 h).2
  · rintro rfl
    refine Option.eq_none_iff_forall_not_mem.2 fun p hp => ?_
    have := (hm.parentId_spec hd hp).1
    rw [Locale.specificity_root] at this
    omega

/-- Identifiers met below do not matter to a climb, since they are more specific than all that it
meets. The induction is on the specificity of the locale it has reached. -/
theorem climb_eq_ancestry {visited : List Locale} {l : Locale} {d : LocaleData} {h : d ∈ m.values}
    (hd : m.get? l = some d) (hv : ∀ v ∈ visited, l.specificity < v.specificity) :
    m.climb visited d h = m.ancestry l := by
  induction hn : l.specificity using Nat.strongRecOn generalizing visited l d with
  | ind n ih =>
    subst hn
    have hid := hm.labelled hd
    have hnot : d.id ∉ visited := fun hmem => Nat.lt_irrefl _ (hid ▸ hv _ hmem)
    rw [ancestry_of_getOrRoot? (getOrRoot?_of_get? hd)]
    cases hp : d.parentId with
    | none =>
      rw [climb_of_parentId_eq_none hnot hp, climb_of_parentId_eq_none List.not_mem_nil hp]
    | some p =>
      obtain ⟨hs, e, he⟩ := hm.parentId_spec hd hp
      have hor := getOrRoot?_of_get? he
      have hs' : p.specificity < d.id.specificity := hid.symm ▸ hs
      -- with or without `visited`, what is above is the ancestry of the parent
      have above (vs : List Locale) (hvs : ∀ v ∈ vs, l.specificity < v.specificity) :
          m.climb (d.id :: vs) e (mem_values_of_getOrRoot? hor) = m.ancestry p := by
        refine ih p.specificity hs he (fun v hmem => ?_) rfl
        rcases List.mem_cons.1 hmem with rfl | hmem
        · exact hs'
        · exact Nat.lt_trans hs (hvs v hmem)
      rw [climb_of_parentId hnot hp hs' hor, climb_of_parentId List.not_mem_nil hp hs' hor,
        above visited hv, above [] (by simp)]

theorem ancestry_root {d : LocaleData} (hd : m.get? .root = some d) :
    m.ancestry .root = .cons d {} := by
  rw [ancestry_of_getOrRoot? (getOrRoot?_of_get? hd)]
  exact climb_of_parentId_eq_none List.not_mem_nil ((hm.parentId_eq_none_iff hd).2 rfl)

/-- Above a locale is the ancestry of its parent. -/
theorem ancestry_of_parentId {l p : Locale} {d : LocaleData} (hd : m.get? l = some d)
    (hp : d.parentId = some p) :
    m.ancestry l = .cons d (m.ancestry p) := by
  obtain ⟨hs, e, he⟩ := hm.parentId_spec hd hp
  have hid := hm.labelled hd
  have hs' : p.specificity < d.id.specificity := hid.symm ▸ hs
  rw [ancestry_of_getOrRoot? (getOrRoot?_of_get? hd),
    climb_of_parentId List.not_mem_nil hp hs' (getOrRoot?_of_get? he),
    hm.climb_eq_ancestry he (by simpa using hs')]

/-- What holds of root, of every child of a locale that it holds of and, with root, of every unknown
locale holds of all locales. -/
theorem inherit {motive : Locale → Prop} (l : Locale) (root : motive .root)
    (child : ∀ {l p d}, m.get? l = some d → d.parentId = some p → motive p → motive l)
    (unknown : ∀ {l}, m.get? l = none → motive .root → motive l) : motive l := by
  induction hn : l.specificity using Nat.strongRecOn generalizing l with
  | ind n ih =>
    subst hn
    cases hd : m.get? l with
    | none => exact unknown hd root
    | some d =>
      cases hp : d.parentId with
      | none => exact (hm.parentId_eq_none_iff hd).1 hp ▸ root
      | some p => exact child hd hp (ih p.specificity (hm.parentId_spec hd hp).1 p rfl)

theorem fault_ancestry (l : Locale) : (m.ancestry l).fault = none := by
  refine hm.inherit (motive := fun l => (m.ancestry l).fault = none) l ?_ (fun hd hp ih => ?_)
    fun hl ih => ?_
  · obtain ⟨d, hd, -⟩ := hm.root
    rw [hm.ancestry_root hd]
    rfl
  · rw [hm.ancestry_of_parentId hd hp]
    exact ih
  · rw [ancestry_of_unknown hl]
    exact ih

/-- More data do not come between a locale and its ancestors, since every parent is in the smaller
map already. -/
theorem ancestry_of_extends {m' : LocaleMap} (hm' : m'.WellFormed)
    (hext : ∀ {l d}, m.get? l = some d → m'.get? l = some d) (l : Locale)
    (hl : m.get? l = none → m'.get? l = none) : m'.ancestry l = m.ancestry l := by
  obtain ⟨r, hr, -⟩ := hm.root
  have hroot : m'.ancestry .root = m.ancestry .root := by
    rw [hm'.ancestry_root (hext hr), hm.ancestry_root hr]
  refine hm.inherit (motive := fun l => (m.get? l = none → m'.get? l = none) →
    m'.ancestry l = m.ancestry l) l (fun _ => hroot) (fun {l p d} hd hp ih _ => ?_)
    (fun {l} hn _ hl => ?_) hl
  · obtain ⟨-, e, he⟩ := hm.parentId_spec hd hp
    rw [hm'.ancestry_of_parentId (hext hd) hp, hm.ancestry_of_parentId hd hp,
      ih fun hn => by simp [he] at hn]
  · rw [ancestry_of_unknown hn, ancestry_of_unknown (hl hn), hroot]

end WellFormed

end LocaleMap

/-! ## Resolving over an ancestry -/

namespace Ancestry

theorem nearest?_cons {α : Type} (d : LocaleData) (a : Ancestry) (f : LocaleData → Option α) :
    (cons d a).nearest? f = (f d).elim (a.nearest? f) (.ok ∘ some) := by
  rw [nearest?, cons, List.findSome?_cons]
  cases f d <;> rfl

theorem nearest?_of_fault_eq_none {α : Type} {a : Ancestry} (h : a.fault = none)
    (f : LocaleData → Option α) : a.nearest? f = .ok (a.members.findSome? f) := by
  rw [nearest?, h]
  cases a.members.findSome? f <;> rfl

theorem foldl_orElse (s : SymbolOverrides) (ds : List LocaleData) :
    ds.foldl (fun s d => s.orElse d.symbols) s =
      s.orElse (ds.foldl (fun s d => s.orElse d.symbols) {}) := by
  induction ds generalizing s with
  | nil => simp [SymbolOverrides.orElse]
  | cons d ds ih =>
    rw [List.foldl_cons, List.foldl_cons, ih, SymbolOverrides.empty_orElse, ih d.symbols,
      SymbolOverrides.orElse_assoc]

theorem symbols_cons (d : LocaleData) (a : Ancestry) :
    (cons d a).symbols = a.symbols.map (d.symbols.complete ·) := by
  unfold symbols cons
  cases a.fault with
  | some fault => rfl
  | none =>
    simp only [List.foldl_cons, SymbolOverrides.empty_orElse, foldl_orElse d.symbols,
      SymbolOverrides.complete_orElse]
    rfl

theorem symbols_of_fault_eq_none {a : Ancestry} (h : a.fault = none) :
    ∃ s, a.symbols = .ok s := by
  rw [symbols, h]
  exact ⟨_, rfl⟩

theorem currencySymbol_cons (d : LocaleData) (a : Ancestry) (code : CurrencyCode) :
    (cons d a).currencySymbol code =
      (d.currencySymbols.get? code.text).getD (a.currencySymbol code) := by
  rw [currencySymbol, cons, List.findSome?_cons]
  cases d.currencySymbols.get? code.text <;> rfl

end Ancestry

namespace LocaleMap

variable {m m' : LocaleMap} {l l' : Locale}

theorem resolvePattern_congr (h : m.ancestry l = m'.ancestry l') (k : Category) :
    m.resolvePattern l k = m'.resolvePattern l' k := by
  rw [resolvePattern, h, resolvePattern]

theorem resolveSymbols_congr (h : m.ancestry l = m'.ancestry l') :
    m.resolveSymbols l = m'.resolveSymbols l' := by
  rw [resolveSymbols, h, resolveSymbols]

theorem resolveCurrency_congr (h : m.ancestry l = m'.ancestry l') :
    m.resolveCurrency l = m'.resolveCurrency l' := by
  rw [resolveCurrency, h, resolveCurrency]

theorem resolvePattern_eq_ok_iff {k : Category} {text : String} :
    m.resolvePattern l k = .ok text ↔
      (m.ancestry l).members.findSome? (·.pattern k) = some text := by
  unfold resolvePattern Ancestry.nearest?
  cases (m.ancestry l).members.findSome? (·.pattern k) with
  | none => cases (m.ancestry l).fault <;> simp
  | some found => simp

/-- Where no member defines a pattern, the walk has come to its end. -/
theorem resolvePattern_of_findSome?_eq_none {k : Category}
    (h : (m.ancestry l).members.findSome? (·.pattern k) = none) :
    m.resolvePattern l k =
      .error ((m.ancestry l).fault.elim (.missingRootPattern k) .inheritance) := by
  rw [resolvePattern, Ancestry.nearest?, h]
  cases (m.ancestry l).fault <;> rfl

theorem resolveSymbols_of_fault {f : InheritanceFault} (h : (m.ancestry l).fault = some f) :
    m.resolveSymbols l = .error (.inheritance f) := by
  rw [resolveSymbols, Ancestry.symbols, h]
  rfl

theorem exists_resolveSymbols (h : (m.ancestry l).fault = none) :
    ∃ symbols, m.resolveSymbols l = .ok symbols := by
  obtain ⟨symbols, hs⟩ := Ancestry.symbols_of_fault_eq_none h
  exact ⟨symbols, by rw [resolveSymbols, hs]; rfl⟩

theorem exists_resolveCurrency (h : (m.ancestry l).fault = none) :
    ∃ code, m.resolveCurrency l = .ok code := by
  have hc := Ancestry.nearest?_of_fault_eq_none h (·.currency)
  exact ⟨_, by rw [resolveCurrency, hc]; rfl⟩

end LocaleMap

/-- Each symbol is the locale's own, where the overrides give one, or else that of `base`. -/
structure SymbolOverrides.Gives (s : SymbolOverrides) (base symbols : Symbols) : Prop where
  decimal : symbols.decimal = s.decimal.getD base.decimal
  group : symbols.group = s.group.getD base.group
  minusSign : symbols.minusSign = s.minusSign.getD base.minusSign
  plusSign : symbols.plusSign = s.plusSign.getD base.plusSign
  percentSign : symbols.percentSign = s.percentSign.getD base.percentSign
  perMille : symbols.perMille = s.perMille.getD base.perMille
  infinity : symbols.infinity = s.infinity.getD base.infinity
  nan : symbols.nan = s.nan.getD base.nan

theorem SymbolOverrides.gives_complete (s : SymbolOverrides) (base : Symbols) :
    s.Gives base (s.complete base) :=
  ⟨rfl, rfl, rfl, rfl, rfl, rfl, rfl, rfl⟩

namespace Catalog

/-- What the locale data `d` do not define themselves is what the locale `p` resolves to. -/
structure Inherits (c : Catalog) (d : LocaleData) (p : Locale) : Prop where
  pattern : ∀ k, c.locales.resolvePattern d.id k =
    (d.pattern k).elim (c.locales.resolvePattern p k) .ok
  symbols : ∃ base symbols, c.locales.resolveSymbols p = .ok base ∧
    c.locales.resolveSymbols d.id = .ok symbols ∧ d.symbols.Gives base symbols
  currency : c.locales.resolveCurrency d.id =
    d.currency.elim (c.locales.resolveCurrency p) (.ok ∘ some)
  currencySymbol : ∀ code, c.symbolFor code d.id =
    (d.currencySymbols.get? code.text).getD (c.symbolFor code p)

/-- Where all inheritance ends: the patterns of the root data `d` are all there, and what else they
do not define is the Latin symbol, no currency, and the code of a currency. -/
structure Founds (c : Catalog) (d : LocaleData) : Prop where
  pattern : ∀ k, ∃ text, d.pattern k = some text ∧ c.locales.resolvePattern .root k = .ok text
  symbols : ∃ symbols, c.locales.resolveSymbols .root = .ok symbols ∧
    d.symbols.Gives
      { decimal := ".", group := ",", minusSign := "-", plusSign := "+", percentSign := "%",
        perMille := "‰", infinity := "∞", nan := "NaN" } symbols
  currency : c.locales.resolveCurrency .root = .ok d.currency
  currencySymbol : ∀ code, c.symbolFor code .root =
    (d.currencySymbols.get? code.text).getD code.text

/-- Two locales resolve to the same everywhere. -/
structure Agree (c : Catalog) (l p : Locale) : Prop where
  pattern : ∀ k, c.locales.resolvePattern l k = c.locales.resolvePattern p k
  symbols : c.locales.resolveSymbols l = c.locales.resolveSymbols p
  currency : c.locales.resolveCurrency l = c.locales.resolveCurrency p
  currencySymbol : ∀ code, c.symbolFor code l = c.symbolFor code p

theorem agree_of_ancestry_eq {c : Catalog} {l p : Locale}
    (h : c.locales.ancestry l = c.locales.ancestry p) : c.Agree l p where
  pattern := LocaleMap.resolvePattern_congr h
  symbols := LocaleMap.resolveSymbols_congr h
  currency := LocaleMap.resolveCurrency_congr h
  currencySymbol code := by rw [symbolFor, h, symbolFor]

theorem founds_of_get? {c : Catalog} {d : LocaleData} (hd : c.locales.get? .root = some d) :
    c.Founds d := by
  have ha := c.wellFormed.ancestry_root hd
  obtain ⟨e, he, hpatterns⟩ := c.wellFormed.root
  cases hd.symm.trans he
  refine ⟨fun k => ?_, ?_, ?_, fun code => ?_⟩
  · obtain ⟨text, htext⟩ := Option.isSome_iff_exists.1 (hpatterns k)
    refine ⟨text, htext, ?_⟩
    rw [LocaleMap.resolvePattern, ha, Ancestry.nearest?_cons, htext]
    rfl
  · rw [LocaleMap.resolveSymbols, ha, Ancestry.symbols_cons]
    exact ⟨_, rfl, d.symbols.gives_complete .latin⟩
  · rw [LocaleMap.resolveCurrency, ha, Ancestry.nearest?_cons]
    cases d.currency <;> rfl
  · rw [symbolFor, ha, Ancestry.currencySymbol_cons]
    rfl

theorem inherits_of_parentId {c : Catalog} {l p : Locale} {d : LocaleData}
    (hd : c.locales.get? l = some d) (hp : d.parentId = some p) : c.Inherits d p := by
  cases c.wellFormed.labelled hd
  have ha := c.wellFormed.ancestry_of_parentId hd hp
  refine ⟨fun k => ?_, ?_, ?_, fun code => ?_⟩
  · rw [LocaleMap.resolvePattern, ha, Ancestry.nearest?_cons, LocaleMap.resolvePattern]
    cases d.pattern k <;> rfl
  · obtain ⟨base, hbase⟩ := Ancestry.symbols_of_fault_eq_none (c.wellFormed.fault_ancestry p)
    rw [LocaleMap.resolveSymbols, LocaleMap.resolveSymbols, ha, Ancestry.symbols_cons, hbase]
    exact ⟨base, _, rfl, rfl, d.symbols.gives_complete base⟩
  · rw [LocaleMap.resolveCurrency, ha, Ancestry.nearest?_cons, LocaleMap.resolveCurrency]
    cases d.currency <;> rfl
  · rw [symbolFor, ha, Ancestry.currencySymbol_cons, symbolFor]

theorem agree_root_of_get?_eq_none {c : Catalog} {l : Locale} (h : c.locales.get? l = none) :
    c.Agree l .root :=
  agree_of_ancestry_eq (LocaleMap.ancestry_of_unknown h)

/-- **Inheritance is structural.** In the catalog of some data the root data found everything, each
of the others inherits from its parent, which is root if it names none, and a locale without data
agrees with root. -/
theorem ofList_inherits {ds : List LocaleData} {c : Catalog} (h : ofList ds = .ok c) :
    (∃ d ∈ ds, d.id = .root ∧ c.Founds d) ∧
      (∀ d ∈ ds, d.id ≠ .root → c.Inherits d (d.parent.getD .root)) ∧
      ∀ l, (∀ d ∈ ds, d.id ≠ l) → c.Agree l .root := by
  refine ⟨?_, fun d hd hroot => ?_, fun l hl => ?_⟩
  · obtain ⟨d, hd, -⟩ := c.wellFormed.root
    obtain ⟨hmem, hid⟩ := (ofList_get?_eq_some_iff h).1 hd
    exact ⟨d, hmem, hid, founds_of_get? hd⟩
  · have hp : d.parentId = some (d.parent.getD .root) := by
      cases hp : d.parent <;> simp [LocaleData.parentId, hp, Locale.isRoot, hroot]
    exact inherits_of_parentId ((ofList_get?_eq_some_iff h).2 ⟨hd, rfl⟩) hp
  · exact agree_root_of_get?_eq_none (ofList_get?_eq_none h hl)

/-- The POSIX variant of English in the United States: infinity and the patterns are its own, the
currency is that of its parent, and the symbol for that comes from English. -/
theorem ofList_inherits_posix :
    ∃ d, d = Bundled.english[2] ∧ ofList Bundled.localeData = .ok Bundled.catalog ∧
      Bundled.catalog.Inherits d { language := "en", territory := "US" } ∧
      Bundled.catalog.locales.resolvePattern d.id .decimal = .ok "0.######" ∧
      Bundled.catalog.locales.resolvePattern d.id .currency = .ok "¤ 0.00" ∧
      Bundled.catalog.locales.resolvePattern d.id .percent = .ok "0%" ∧
      Bundled.catalog.locales.resolveSymbols d.id = .ok
        { decimal := ".", group := ",", minusSign := "-", plusSign := "+", percentSign := "%",
          perMille := "‰", infinity := "INF", nan := "NaN" } ∧
      Bundled.catalog.locales.resolveCurrency d.id = .ok (some (.ofText "USD")) ∧
      Bundled.catalog.symbolFor (.ofText "USD") d.id = "$" := by
  have h := ofList_of_defect Bundled.defect_localeData
  have hmem : Bundled.english[2] ∈ Bundled.localeData := by
    simp [Bundled.localeData]
  refine ⟨_, rfl, h, (ofList_inherits h).2.1 _ hmem (by decide), ?_⟩
  decide +kernel

end Catalog

end Numerals
