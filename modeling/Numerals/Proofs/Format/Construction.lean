import Numerals.Format.Formatter
import Numerals.Proofs.Decimal.Rounding
import Numerals.Proofs.Locale.Inheritance
import Numerals.Proofs.Pattern.IntegerOnly

/-!
# Formatters over a catalog

A catalog has all that a formatter is made of: whatever locale is asked for, resolving a pattern
ends at one that compiles, also where it is cut for whole numbers, and resolving symbols and
currency ends at root. `Formatter.make_catalog` is the result: making a formatter over a catalog
never fails, nor does formatting with what was made.
-/

namespace Numerals

namespace Catalog

variable (c : Catalog) (l : Locale)

theorem exists_resolvePattern (k : Category) :
    ∃ text p, c.locales.resolvePattern l k = .ok text ∧ Pattern.compile text = .ok p := by
  refine c.wellFormed.inherit (motive := fun l => ∃ text p,
    c.locales.resolvePattern l k = .ok text ∧ Pattern.compile text = .ok p) l ?_
    (fun {l p d} hd hp ih => ?_) fun {l} hl ih => ?_
  · obtain ⟨d, hd, -⟩ := c.wellFormed.root
    obtain ⟨text, htext, hresolve⟩ := (founds_of_get? hd).pattern k
    obtain ⟨p, hp⟩ := c.wellFormed.pattern hd htext
    exact ⟨text, p, hresolve, hp⟩
  · have hinherits := (inherits_of_parentId hd hp).pattern k
    rw [c.wellFormed.labelled hd] at hinherits
    cases htext : d.pattern k with
    | none =>
      rw [htext] at hinherits
      rw [hinherits]
      exact ih
    | some text =>
      rw [htext] at hinherits
      obtain ⟨p, hp⟩ := c.wellFormed.pattern hd htext
      exact ⟨text, p, hinherits, hp⟩
  · rw [(agree_root_of_get?_eq_none hl).pattern k]
    exact ih

end Catalog

/-- What a family compiles of a pattern text. -/
def Family.cut (family : Family) (text : String) : String :=
  match family with
  | integer => Pattern.integerOnly text
  | number | currency | percent => text

theorem Family.exists_compile_cut (family : Family) {text : String} {p : Pattern}
    (h : Pattern.compile text = .ok p) : ∃ p', Pattern.compile (family.cut text) = .ok p' := by
  cases family with
  | integer => exact Pattern.exists_compile_integerOnly h
  | number | currency | percent => exact ⟨p, h⟩

/-- The limits that a family starts with, where the pattern asks for `l`. -/
def Family.limits (family : Family) (l : DigitLimits) : DigitLimits :=
  match family with
  | number => l.setMaxInteger unboundedDigits
  | integer | percent => l.setMaxFraction 0
  | currency => l

namespace Formatter

theorem exists_format {f : Formatter} (h : f.settings.roundingMode ≠ .unnecessary)
    (v : Numeric) : ∃ text, f.format v = .ok text := by
  unfold format
  cases v.normalized.quantity with
  | nan => exact ⟨_, rfl⟩
  | infinite negative => exact ⟨_, rfl⟩
  | finite negative magnitude =>
    obtain ⟨y, hy⟩ := (magnitude.mul f.settings.multiplier.natAbs).exists_round h
      f.settings.limits.maxFraction (negative != f.settings.multiplier.isNegative)
    exact ⟨_, by rw [formatQuantity, scaled, hy]⟩

section
variable {family : Family} {m : LocaleMap} {symbols : CurrencySymbols} {l : Locale} {text : String}

theorem ofPattern_eq_ok {p : Pattern} {s : Symbols} (hp : Pattern.compile text = .ok p)
    (hs : m.resolveSymbols l = .ok s) :
    ofPattern family m l text =
      .ok { family, locale := l, pattern := p, symbols := s, settings := .ofPattern p } := by
  rw [ofPattern, hp, hs]
  rfl

theorem exists_of_ofPattern {f : Formatter} (h : ofPattern family m l text = .ok f) :
    ∃ p s, Pattern.compile text = .ok p ∧ m.resolveSymbols l = .ok s ∧
      f = { family, locale := l, pattern := p, symbols := s, settings := .ofPattern p } := by
  obtain ⟨p, hp, h⟩ := bind_eq_ok_iff.1 h
  obtain ⟨s, hs, h⟩ := bind_eq_ok_iff.1 h
  cases h
  refine ⟨p, s, ?_, hs, rfl⟩
  cases hc : Pattern.compile text with
  | error e =>
    rw [hc] at hp
    cases hp
  | ok p' =>
    rw [hc] at hp
    cases hp
    rfl

/-- What was made has the pattern that its locale resolves to, and the limits that its family takes
from it. -/
theorem exists_of_make {f : Formatter} (h : make family m symbols l = .ok f) :
    ∃ text, m.resolvePattern l family.category = .ok text ∧
      Pattern.compile (family.cut text) = .ok f.pattern ∧
      f.settings.limits = family.limits f.pattern.limits := by
  cases family with
  | number | integer | percent =>
    obtain ⟨text, htext, h⟩ := bind_eq_ok_iff.1 h
    obtain ⟨g, hg, h⟩ := bind_eq_ok_iff.1 h
    obtain ⟨p, s, hp, -, rfl⟩ := exists_of_ofPattern hg
    cases h
    exact ⟨text, htext, hp, rfl⟩
  | currency =>
    obtain ⟨text, htext, h⟩ := bind_eq_ok_iff.1 h
    obtain ⟨g, hg, h⟩ := bind_eq_ok_iff.1 h
    obtain ⟨p, s, hp, -, rfl⟩ := exists_of_ofPattern hg
    obtain ⟨_ | code, -, h⟩ := bind_eq_ok_iff.1 h <;> cases h <;> exact ⟨text, htext, hp, rfl⟩

/-- A formatter can be made of what its locale resolves to, and starts with a mode that rounds. -/
theorem exists_make_of_resolves {p : Pattern} {s : Symbols} {code : Option CurrencyCode}
    (htext : m.resolvePattern l family.category = .ok text)
    (hp : Pattern.compile (family.cut text) = .ok p) (hs : m.resolveSymbols l = .ok s)
    (hcode : m.resolveCurrency l = .ok code) :
    ∃ f, make family m symbols l = .ok f ∧ f.settings.roundingMode = .halfEven := by
  cases family with
  | number | integer | percent =>
    exact ⟨_, bind_eq_ok_iff.2 ⟨text, htext, bind_eq_ok_iff.2 ⟨_, ofPattern_eq_ok hp hs, rfl⟩⟩, rfl⟩
  | currency =>
    cases code <;>
      exact ⟨_, bind_eq_ok_iff.2 ⟨text, htext, bind_eq_ok_iff.2 ⟨_, ofPattern_eq_ok hp hs,
        bind_eq_ok_iff.2 ⟨_, hcode, rfl⟩⟩⟩, rfl⟩

end

theorem exists_make (c : Catalog) (family : Family) (symbols : CurrencySymbols) (l : Locale) :
    ∃ f, make family c.locales symbols l = .ok f ∧ f.settings.roundingMode = .halfEven := by
  obtain ⟨text, p, htext, hp⟩ := c.exists_resolvePattern l family.category
  obtain ⟨p', hp'⟩ := family.exists_compile_cut hp
  obtain ⟨s, hs⟩ := LocaleMap.exists_resolveSymbols (c.wellFormed.fault_ancestry l)
  obtain ⟨code, hcode⟩ := LocaleMap.exists_resolveCurrency (c.wellFormed.fault_ancestry l)
  exact exists_make_of_resolves htext hp' hs hcode

/-- **Formatters over a catalog.** Whatever the family and the locale, a formatter can be made, and
formats every value. -/
theorem make_catalog (c : Catalog) (family : Family) (symbols : CurrencySymbols) (l : Locale) :
    ∃ f, make family c.locales symbols l = .ok f ∧ ∀ v, ∃ text, f.format v = .ok text := by
  obtain ⟨f, hf, hmode⟩ := exists_make c family symbols l
  exact ⟨f, hf, exists_format (by rw [hmode]; decide)⟩

end Formatter

end Numerals
