/-!
# Number symbols

The texts a locale writes for separators, signs and special values. A locale's own data gives some
of them; `SymbolOverrides.orElse` takes what is absent from another locale's data, and
`SymbolOverrides.complete` takes what is absent everywhere from the Latin defaults.
-/

namespace Numerals

/-- The texts numbers are written with. -/
structure Symbols where
  decimal : String := "."
  group : String := ","
  minusSign : String := "-"
  plusSign : String := "+"
  percentSign : String := "%"
  perMille : String := "‰"
  infinity : String := "∞"
  nan : String := "NaN"
  deriving DecidableEq

/-- The Latin symbols. -/
def Symbols.latin : Symbols := {}

/-- The symbols that one locale defines itself. -/
structure SymbolOverrides where
  decimal : Option String := none
  group : Option String := none
  minusSign : Option String := none
  plusSign : Option String := none
  percentSign : Option String := none
  perMille : Option String := none
  infinity : Option String := none
  nan : Option String := none
  deriving DecidableEq

namespace SymbolOverrides

/-- Each symbol from `s`, or from `t` where `s` has none. -/
def orElse (s t : SymbolOverrides) : SymbolOverrides where
  decimal := s.decimal.or t.decimal
  group := s.group.or t.group
  minusSign := s.minusSign.or t.minusSign
  plusSign := s.plusSign.or t.plusSign
  percentSign := s.percentSign.or t.percentSign
  perMille := s.perMille.or t.perMille
  infinity := s.infinity.or t.infinity
  nan := s.nan.or t.nan

/-- Each symbol from `s`, or from `base` where `s` has none. -/
def complete (s : SymbolOverrides) (base : Symbols := .latin) : Symbols where
  decimal := s.decimal.getD base.decimal
  group := s.group.getD base.group
  minusSign := s.minusSign.getD base.minusSign
  plusSign := s.plusSign.getD base.plusSign
  percentSign := s.percentSign.getD base.percentSign
  perMille := s.perMille.getD base.perMille
  infinity := s.infinity.getD base.infinity
  nan := s.nan.getD base.nan

theorem empty_orElse (s : SymbolOverrides) : orElse {} s = s := by
  simp [orElse]

theorem orElse_assoc (r s t : SymbolOverrides) :
    (r.orElse s).orElse t = r.orElse (s.orElse t) := by
  simp [orElse, Option.or_assoc]

theorem complete_orElse (s t : SymbolOverrides) (base : Symbols) :
    (s.orElse t).complete base = s.complete (t.complete base) := by
  simp [orElse, complete, Option.getD_or]

end SymbolOverrides

end Numerals
