import Numerals.Proofs.Decimal.RoundTrip
import Numerals.Proofs.Format.Output

/-!
# Whole floating-point numbers

A whole floating-point number up to 2^53 is formatted as the integer that it becomes. That is what
formatting its own sign and its shortest decimal would give: the decimal is the numeral of the
integer (`Binary64.isShortest_iff_of_whole`), and the sign of a zero, which the integer does not
have, is not shown in any case (`Formatter.formatQuantity_congr`).
-/

namespace Numerals

open RoundingMode

namespace Formatter

variable (f : Formatter)

/-- A sign and a magnitude are formatted by the number that they stand for. -/
theorem formatQuantity_congr {s t : Bool} {a b : Decimal}
    (h : signed s a.toRat = signed t b.toRat) :
    f.formatQuantity (.finite s a) = f.formatQuantity (.finite t b) := by
  have ha := f.formatQuantity_finite s a rfl
  have hb := f.formatQuantity_finite t b rfl
  rw [← h] at hb
  cases hsel : f.settings.roundingMode.select (signed s a.toRat * f.settings.multiplier.toRat *
    10 ^ f.settings.limits.maxFraction) with
  | none =>
    rw [hsel] at ha hb
    exact Eq.trans ha (Eq.symm hb)
  | some k =>
    rw [hsel] at ha hb
    obtain ⟨text, htext, hwrites⟩ := ha
    obtain ⟨text', htext', hwrites'⟩ := hb
    rw [htext, htext', (hwrites' text).1 ((hwrites text).2 rfl)]

/-- **Whole floating-point numbers.** Let the magnitude be whole and at most 2^53. The number
becomes the integer that it stands for, its only shortest decimal is the numeral of its magnitude,
and formatting it gives what its own sign and that decimal give. -/
theorem format_whole_real {x : Binary64} {n : ℕ} (hfinite : x.isFinite = true)
    (hvalue : x.absValue = n) (hn : n ≤ 2 ^ 53) :
    (∃ k : Int64, (Numeric.real x).normalized = .integer k ∧ k.toInt = signed x.negative (n : ℤ) ∧
      (Numeric.integer k).quantity = .finite (decide (k < 0)) (.ofNat n)) ∧
    (∀ d, x.IsShortest d ↔ d = .ofNat n) ∧
    (Numeric.real x).quantity = .finite x.negative (.ofNat n) ∧
    f.format (.real x) = f.formatQuantity (Numeric.real x).quantity ∧
    ∀ d, x.IsShortest d → f.format (.real x) = f.formatQuantity (.finite x.negative d) := by
  have hnat := Binary64.natAbs?_eq_some_iff.2 ⟨hfinite, hvalue⟩
  obtain ⟨k, hk, hint⟩ := Numeric.exists_normalized_of_natAbs? hnat hn
  have habs : k.toInt.natAbs = n := by
    rw [hint]
    cases x.negative <;> simp [signed]
  have hinteger : (Numeric.integer k).quantity = .finite (decide (k < 0)) (.ofNat n) := by
    rw [Numeric.quantity, habs]
  have hreal : (Numeric.real x).quantity = .finite x.negative (.ofNat n) := by
    rw [Numeric.quantity_of_finite hfinite, Binary64.magnitude_of_whole hnat hn]
  have hsigned : signed (decide (k < 0)) (Decimal.ofNat n).toRat =
      signed x.negative (Decimal.ofNat n).toRat := by
    rw [Decimal.toRat_ofNat, ← habs, Numeric.signed_natAbs, habs, hint]
    cases x.negative <;> simp [signed]
  have hformat : f.format (.real x) = f.formatQuantity (.finite x.negative (.ofNat n)) := by
    rw [format, hk, hinteger]
    exact f.formatQuantity_congr hsigned
  have hshortest (d : Decimal) := Binary64.isShortest_iff_of_whole hvalue hn hfinite (d := d)
  refine ⟨⟨k, hk, hint, hinteger⟩, hshortest, hreal, ?_, fun d hd => ?_⟩
  · rw [hreal, hformat]
  · rw [(hshortest d).1 hd, hformat]

/-- The least of these numbers, which has a neighbour on one side only at the distance one. -/
theorem format_whole_real_least :
    ∃ x : Binary64, x = .ofBits 0xC340000000000000 ∧ x.isFinite = true ∧
      x.absValue = (2 ^ 53 : ℕ) ∧ 2 ^ 53 ≤ 2 ^ 53 ∧ x.IsShortest (.ofNat (2 ^ 53)) ∧
      bracketed.format (.real x) = .ok "(9,007,199,254,740,992.00)" ∧
      bracketed.formatQuantity (.finite true (.ofNat (2 ^ 53))) =
        .ok "(9,007,199,254,740,992.00)" := by
  have hnat : (Binary64.ofBits 0xC340000000000000).natAbs? = some (2 ^ 53) := by decide +kernel
  obtain ⟨hfinite, hvalue⟩ := Binary64.natAbs?_eq_some_iff.1 hnat
  obtain ⟨-, hshortest, -, -, hformat⟩ :=
    format_whole_real bracketed hfinite hvalue (Nat.le_refl _)
  have hd := (hshortest _).2 rfl
  have htext : bracketed.format (.real (.ofBits 0xC340000000000000)) =
      .ok "(9,007,199,254,740,992.00)" := by
    decide +kernel
  exact ⟨_, rfl, hfinite, hvalue, Nat.le_refl _, hd, htext, (hformat _ hd).symm.trans htext⟩

end Formatter

end Numerals
