/-!
# Currencies

Currency codes are compared and shown without regard to the case of ASCII letters: a code is held
in upper case however it was written.
-/

namespace Numerals

/-- The text with its ASCII letters in upper case; every other character stays as it is. -/
def upperCase (text : String) : String := text.map Char.toUpper

theorem val_toUpper {c : Char} (h : 'a'.val ≤ c.val ∧ c.val ≤ 'z'.val) :
    c.toUpper.val = c.val + ('A'.val - 'a'.val) := by
  delta Char.toUpper
  rw [dif_pos h]

theorem toUpper_of_not_lower {c : Char} (h : ¬('a'.val ≤ c.val ∧ c.val ≤ 'z'.val)) :
    c.toUpper = c := by
  delta Char.toUpper
  rw [dif_neg h]

theorem toUpper_toUpper (c : Char) : c.toUpper.toUpper = c.toUpper := by
  by_cases h : 'a'.val ≤ c.val ∧ c.val ≤ 'z'.val
  · refine toUpper_of_not_lower ?_
    rw [val_toUpper h]
    have ha : 'a'.val.toNat = 97 := rfl
    have hz : 'z'.val.toNat = 122 := rfl
    have hdown : ('A'.val - 'a'.val).toNat = 4294967264 := rfl
    simp only [UInt32.le_iff_toNat_le, UInt32.toNat_add, ha, hz, hdown] at h ⊢
    omega
  · rw [toUpper_of_not_lower h, toUpper_of_not_lower h]

theorem upperCase_upperCase (text : String) : upperCase (upperCase text) = upperCase text := by
  rw [← String.toList_inj, upperCase, String.toList_map, upperCase, String.toList_map,
    List.map_map]
  exact List.map_congr_left fun c _ => toUpper_toUpper c

/-- A currency code in upper case. -/
structure CurrencyCode where
  text : String
  upper : upperCase text = text
  deriving DecidableEq

/-- The code that a text stands for. -/
def CurrencyCode.ofText (text : String) : CurrencyCode :=
  ⟨upperCase text, upperCase_upperCase text⟩

/-- A currency and how a locale displays it. -/
structure Currency where
  code : CurrencyCode
  symbol : String
  deriving DecidableEq

end Numerals
