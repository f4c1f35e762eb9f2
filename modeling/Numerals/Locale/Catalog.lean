import Numerals.Locale.Ancestry
import Numerals.Pattern.Compile

/-!
# Catalogs

A catalog is a set of locale data in which inheritance always works: root is there and defines a
pattern for every category, every parent is there and less specific than its child, and every
pattern compiles (`LocaleMap.WellFormed`). `Catalog.ofList` builds one, or names the first defect
it finds: a locale given twice, then root's defects, then those of the locales in order.
-/

namespace Numerals

/-- Why locale data make no catalog. -/
inductive CatalogError where
  /-- The text that holds the data cannot be read. -/
  | unreadable
  /-- The text that holds the data is not in the form that locale data have. -/
  | malformed
  | duplicate (locale : Locale)
  | missingRoot
  | missingRootPattern (category : Category)
  /-- The parent is not less specific than the child. -/
  | invalidParent (child parent : Locale)
  | unknownParent (child parent : Locale)
  | pattern (locale : Locale) (category : Category) (source : SyntaxError)
  deriving DecidableEq

def CatalogError.message : CatalogError → String
  | unreadable => "failed to read locale data"
  | malformed => "failed to parse locale data"
  | duplicate locale => "locale " ++ locale.display ++ " is defined twice"
  | missingRoot => "locale data has no root locale"
  | missingRootPattern category => "root locale defines no " ++ category.name ++ " pattern"
  | invalidParent child parent => (InheritanceFault.invalidParent child parent).message
  | unknownParent child parent =>
    "locale " ++ child.display ++ " names unknown parent " ++ parent.display
  | pattern locale category source =>
    "invalid " ++ category.name ++ " pattern for locale " ++ locale.display ++ ": " ++
      source.message

/-- Data in which inheritance always works. -/
structure LocaleMap.WellFormed (m : LocaleMap) : Prop where
  labelled : ∀ {id d}, m.get? id = some d → d.id = id
  root : ∃ d, m.get? .root = some d ∧ ∀ c, (d.pattern c).isSome
  parent : ∀ {id d parent}, m.get? id = some d → d.parent = some parent →
    parent.specificity < id.specificity ∧ m.contains parent
  pattern : ∀ {id d c text}, m.get? id = some d → d.pattern c = some text →
    ∃ p, Pattern.compile text = .ok p

/-- Locale data in which inheritance always works. -/
structure Catalog where
  locales : LocaleMap
  wellFormed : locales.WellFormed

namespace Catalog

/-! ## Defects -/

/-- The first identifier that is among those before it, or among `seen`. -/
def firstRepeated (seen : List Locale) : List Locale → Option Locale
  | [] => none
  | l :: ls => if l ∈ seen then some l else firstRepeated (l :: seen) ls

def rootDefect (m : LocaleMap) : Option CatalogError :=
  match m.get? .root with
  | none => some .missingRoot
  | some root => (Category.all.find? fun c => (root.pattern c).isNone).map .missingRootPattern

def parentDefect (m : LocaleMap) (d : LocaleData) : Option CatalogError :=
  match d.parent with
  | none => none
  | some parent =>
    if d.id.specificity ≤ parent.specificity then some (.invalidParent d.id parent)
    else if m.contains parent then none
    else some (.unknownParent d.id parent)

def patternDefect (d : LocaleData) (c : Category) : Option CatalogError :=
  match d.pattern c with
  | none => none
  | some text =>
    match Pattern.compile text with
    | .ok _ => none
    | .error source => some (.pattern d.id c source)

/-- The first defect of one locale: its parent, then its patterns. -/
def dataDefect (m : LocaleMap) (d : LocaleData) : Option CatalogError :=
  (parentDefect m d).or (Category.all.findSome? (patternDefect d))

/-- The first defect of the data, where their map is `m`. -/
def defect (ds : List LocaleData) (m : LocaleMap) : Option CatalogError :=
  ((firstRepeated [] (ds.map (·.id))).map .duplicate).or <|
    (rootDefect m).or <|
      (Locale.sortUnique m.keys).findSome? fun id => (m.get? id).bind (dataDefect m)

theorem wellFormed_of_defect {ds : List LocaleData} (h : defect ds (.ofList ds) = none) :
    (LocaleMap.ofList ds).WellFormed := by
  simp only [defect, Option.or_eq_none_iff, List.findSome?_eq_none_iff, Locale.mem_sortUnique] at h
  obtain ⟨-, hroot, hdata⟩ := h
  have hlabel {id d} (hd : (LocaleMap.ofList ds).get? id = some d) : d.id = id := by
    obtain ⟨e, -, he⟩ := List.mem_map.1 (Table.mem_of_get?_ofList hd)
    cases he
    rfl
  have hdefect {id d} (hd : (LocaleMap.ofList ds).get? id = some d) :
      parentDefect (.ofList ds) d = none ∧ ∀ c, patternDefect d c = none := by
    have := hdata id (Table.mem_keys_iff.2 (by simp [Table.contains, hd]))
    rw [hd, Option.bind_some, dataDefect, Option.or_eq_none_iff, List.findSome?_eq_none_iff] at this
    exact ⟨this.1, fun c => this.2 c c.mem_all⟩
  refine ⟨hlabel, ?_, fun {id d parent} hd hp => ?_, fun {id d c text} hd ht => ?_⟩
  · unfold rootDefect at hroot
    split at hroot
    · cases hroot
    · next d hd =>
      refine ⟨d, hd, fun c => ?_⟩
      rw [Option.map_eq_none_iff, List.find?_eq_none] at hroot
      simpa [Option.isSome_iff_ne_none] using hroot c c.mem_all
  · have := (hdefect hd).1
    simp only [parentDefect, hp] at this
    split at this
    · cases this
    · next hs =>
      split at this
      · next hc => exact ⟨hlabel hd ▸ Nat.lt_of_not_le hs, hc⟩
      · cases this
  · have := (hdefect hd).2 c
    simp only [patternDefect, ht] at this
    split at this
    · next p hp => exact ⟨p, hp⟩
    · cases this

/-- The catalog of some locale data, or their first defect. -/
def ofList (ds : List LocaleData) : Except CatalogError Catalog :=
  match h : defect ds (.ofList ds) with
  | some e => .error e
  | none => .ok ⟨.ofList ds, wellFormed_of_defect h⟩

/-! ## Queries -/

/-- The locales of the catalog in order. -/
def available (c : Catalog) : List Locale := Locale.sortUnique c.locales.keys

def contains (c : Catalog) (l : Locale) : Bool := c.locales.contains l

/-- The locale that a locale of the catalog inherits from. -/
def parent? (c : Catalog) (l : Locale) : Option Locale :=
  (c.locales.get? l).bind (·.parentId)

/-- How a locale displays a currency: as the nearest locale that says so, or by its code. -/
def symbolFor (c : Catalog) (code : CurrencyCode) (l : Locale) : String :=
  (c.locales.ancestry l).currencySymbol code

end Catalog

end Numerals
