import Numerals.Proofs.Format.Construction
import Numerals.Proofs.Format.Runs
import Numerals.Proofs.Locale.Acceptance
import Numerals.Proofs.Pattern.Printing

/-!
# Minimums of the shown digits

A least number of digits is capped where a call sets it, since all these digits are written out. The
counts of a pattern are taken over as they are, however many they are
(`Formatter.exists_make_demanding`), so a formatter may start above a cap.

Only a greatest number above the cap leaves a least one above it where it is
(`DigitBounds.lt_least_set_iff`, and for several `DigitBounds.lt_least_foldl_iff`). Hence a
formatter that starts within the caps never leaves them, and one that does not is above a cap for as
long as no other call sets the pair of that cap (`Formatter.run_minimums`).
-/

namespace Numerals

namespace DigitBounds

theorem lt_least_set_iff (most : Nat) (b : DigitBounds) (bound : DigitBound) :
    most < (b.set most bound).least ↔ most < b.least ∧ ∃ n, bound = .greatest n ∧ most < n := by
  cases bound with
  | least n =>
    constructor
    · intro h
      exact absurd h (Nat.not_lt.2 (Nat.min_le_right n most))
    · rintro ⟨-, _, ⟨⟩, -⟩
  | greatest n =>
    simp only [set, DigitBound.greatest.injEq, exists_eq_left']
    split <;> omega

theorem lt_least_foldl_iff (most : Nat) (b : DigitBounds) (bounds : List DigitBound) :
    most < (bounds.foldl (.set most) b).least ↔
      most < b.least ∧ ∀ bound ∈ bounds, ∃ n, bound = .greatest n ∧ most < n := by
  induction bounds generalizing b with
  | nil => simp
  | cons bound bounds ih =>
    rw [List.foldl_cons, ih, lt_least_set_iff, List.forall_mem_cons, and_assoc]

end DigitBounds

/-- Both minimums are within their caps. -/
structure DigitLimits.Capped (l : DigitLimits) : Prop where
  integer : l.minInteger ≤ mostMinInteger
  fraction : l.minFraction ≤ mostMinFraction

/-- The bounds of the integer digits that the calls set, in order. -/
def integerBounds (calls : List Call) : List DigitBound :=
  (calls.filterMap Call.adjustment?).filterMap Adjustment.integerBound?

/-- The bounds of the fraction digits that the calls set, in order. -/
def fractionBounds (calls : List Call) : List DigitBound :=
  (calls.filterMap Call.adjustment?).filterMap Adjustment.fractionBound?

namespace Family

open DigitLimits

/-- Whether the fraction digits that a pattern asks for are shown. -/
def showsFraction : Family → Prop
  | number | currency => True
  | integer | percent => False

variable (family : Family) (l : DigitLimits)

theorem lt_minInteger_limits_iff :
    mostMinInteger < (family.limits l).minInteger ↔ mostMinInteger < l.minInteger := by
  cases family with
  | number =>
    have hcap : mostMinInteger < unboundedDigits := by decide
    simp only [limits, setMaxInteger, Nat.lt_min, hcap, and_true]
  | integer | currency | percent => rfl

theorem lt_minFraction_limits_iff :
    mostMinFraction < (family.limits l).minFraction ↔
      family.showsFraction ∧ mostMinFraction < l.minFraction := by
  cases family <;> simp [limits, showsFraction, setMaxInteger, setMaxFraction]

end Family

namespace Formatter

open DigitLimits

/-! ## Runs -/

section
variable (f : Formatter) (calls : List Call)

theorem limits_run : (f.run calls).settings.limits = .ofBounds
    ((integerBounds calls).foldl (.set mostMinInteger) f.settings.limits.integer)
    ((fractionBounds calls).foldl (.set mostMinFraction) f.settings.limits.fraction) := by
  rw [run_eq_adjustAll, adjustAll_eq]
  rfl

theorem lt_minInteger_run_iff : mostMinInteger < (f.run calls).settings.limits.minInteger ↔
    mostMinInteger < f.settings.limits.minInteger ∧
      ∀ bound ∈ integerBounds calls, ∃ n, bound = .greatest n ∧ mostMinInteger < n := by
  rw [limits_run]
  exact DigitBounds.lt_least_foldl_iff _ _ _

theorem lt_minFraction_run_iff : mostMinFraction < (f.run calls).settings.limits.minFraction ↔
    mostMinFraction < f.settings.limits.minFraction ∧
      ∀ bound ∈ fractionBounds calls, ∃ n, bound = .greatest n ∧ mostMinFraction < n := by
  rw [limits_run]
  exact DigitBounds.lt_least_foldl_iff _ _ _

theorem capped_run {f : Formatter} (h : f.settings.limits.Capped) :
    (f.run calls).settings.limits.Capped := by
  refine ⟨Nat.not_lt.1 fun hlt => ?_, Nat.not_lt.1 fun hlt => ?_⟩
  · exact Nat.not_lt.2 h.integer ((lt_minInteger_run_iff f calls).1 hlt).1
  · exact Nat.not_lt.2 h.fraction ((lt_minFraction_run_iff f calls).1 hlt).1

end

/-- **Minimums over whole runs.** Whatever is called, a formatter over a catalog keeps its minimums
within the caps exactly if its pattern asks for no more. A least number of digits above its cap is
that of the pattern, and stays above it while the calls that set one of its two bounds set the
greatest, above the cap. -/
theorem run_minimums (c : Catalog) (family : Family) (symbols : CurrencySymbols) (l : Locale) :
    ∃ f text, make family c.locales symbols l = .ok f ∧
      c.locales.resolvePattern l family.category = .ok text ∧
      Pattern.compile (family.cut text) = .ok f.pattern ∧
      ((∀ calls, (f.run calls).settings.limits.Capped) ↔
        f.pattern.limits.minInteger ≤ mostMinInteger ∧
          (family.showsFraction → f.pattern.limits.minFraction ≤ mostMinFraction)) ∧
      ∀ calls,
        (mostMinInteger < (f.run calls).settings.limits.minInteger ↔
          mostMinInteger < f.pattern.limits.minInteger ∧
            ∀ bound ∈ integerBounds calls, ∃ n, bound = .greatest n ∧ mostMinInteger < n) ∧
        (mostMinFraction < (f.run calls).settings.limits.minFraction ↔
          (family.showsFraction ∧ mostMinFraction < f.pattern.limits.minFraction) ∧
            ∀ bound ∈ fractionBounds calls, ∃ n, bound = .greatest n ∧ mostMinFraction < n) := by
  obtain ⟨f, hf, -⟩ := exists_make c family symbols l
  obtain ⟨text, htext, hp, hlimits⟩ := exists_of_make hf
  have hinteger := family.lt_minInteger_limits_iff f.pattern.limits
  have hfraction := family.lt_minFraction_limits_iff f.pattern.limits
  rw [← hlimits] at hinteger hfraction
  have hstart : f.settings.limits.Capped ↔ f.pattern.limits.minInteger ≤ mostMinInteger ∧
      (family.showsFraction → f.pattern.limits.minFraction ≤ mostMinFraction) := by
    rw [← Nat.not_lt, ← hinteger, Nat.not_lt, ← not_lt (a := mostMinFraction), ← not_and,
      ← hfraction, Nat.not_lt]
    exact ⟨fun h => ⟨h.integer, h.fraction⟩, fun h => ⟨h.1, h.2⟩⟩
  refine ⟨f, text, hf, htext, hp, ?_, fun calls => ⟨?_, ?_⟩⟩
  · rw [← hstart]
    exact ⟨fun h => h [], fun h calls => capped_run calls h⟩
  · rw [lt_minInteger_run_iff, hinteger]
  · rw [lt_minFraction_run_iff, hfraction]

end Formatter

/-! ## Patterns above the caps -/

/-- A pattern that asks for at least `n` integer digits and for `m` fraction digits. -/
def Pattern.demanding (n m : Nat) : Pattern where
  limits := { minInteger := n, minFraction := m, maxFraction := m }

theorem Pattern.compile_text_demanding (n m : Nat) :
    compile (demanding n m).text = .ok (demanding n m) := by
  rw [compile, text, String.toList_ofList]
  refine Normal.compileChars_chars ⟨⟨⟨?_, ?_⟩, ?_, ?_⟩, ?_, rfl, Nat.le_refl m, ?_, ?_⟩
  all_goals simp [demanding, affixes]

/-- Root with such a pattern for every category. -/
def LocaleData.demanding (n m : Nat) : LocaleData where
  id := .root
  decimalPattern := some (Pattern.demanding n m).text
  currencyPattern := some (Pattern.demanding n m).text
  percentPattern := some (Pattern.demanding n m).text
  currencySymbols := default

theorem LocaleData.pattern_demanding (n m : Nat) (k : Category) :
    (demanding n m).pattern k = some (Pattern.demanding n m).text := by
  cases k <;> rfl

theorem Catalog.acceptable_demanding (n m : Nat) : Acceptable [LocaleData.demanding n m] where
  distinct := List.nodup_singleton _
  root := ⟨_, List.mem_singleton_self _, rfl, fun k => by rw [LocaleData.pattern_demanding]; rfl⟩
  parent d hd p hp := by
    rw [List.mem_singleton.1 hd] at hp
    cases hp
  pattern d hd k text htext := by
    rw [List.mem_singleton.1 hd, LocaleData.pattern_demanding] at htext
    cases htext
    exact ⟨_, Pattern.compile_text_demanding n m⟩

namespace Formatter

/-- However many digits a pattern asks for, a catalog takes it, and a formatter starts with them. -/
theorem exists_make_demanding (n m : Nat) {family : Family} (h : family ≠ .integer)
    (symbols : CurrencySymbols) :
    ∃ c f, Catalog.ofList [LocaleData.demanding n m] = .ok c ∧
      make family c.locales symbols .root = .ok f ∧
      f.settings.limits = family.limits (Pattern.demanding n m).limits := by
  obtain ⟨c, hc⟩ := Catalog.exists_ofList_iff.2 (Catalog.acceptable_demanding n m)
  obtain ⟨f, hf, -⟩ := exists_make c family symbols .root
  obtain ⟨text, htext, hp, hlimits⟩ := exists_of_make hf
  have hroot : c.locales.get? .root = some (LocaleData.demanding n m) :=
    (Catalog.ofList_get?_eq_some_iff hc).2 ⟨List.mem_singleton_self _, rfl⟩
  obtain ⟨own, hown, hresolve⟩ := (Catalog.founds_of_get? hroot).pattern family.category
  cases hown.symm.trans (LocaleData.pattern_demanding n m family.category)
  cases htext.symm.trans hresolve
  have hcut (text : String) : family.cut text = text := by
    cases family <;> first | rfl | exact absurd rfl h
  rw [hcut, Pattern.compile_text_demanding] at hp
  refine ⟨c, f, hc, hf, ?_⟩
  rw [hlimits, ← Except.ok.inj hp]

/-- One digit more than either cap. -/
theorem exceeds_caps_demanding :
    ∃ c f, Catalog.ofList [LocaleData.demanding 310 341] = .ok c ∧
      make .number c.locales (fun code _ => code.text) .root = .ok f ∧
      f.settings.limits.minInteger = 310 ∧ f.settings.limits.minFraction = 341 ∧
      ¬f.settings.limits.Capped := by
  obtain ⟨c, f, hc, hf, hlimits⟩ :=
    exists_make_demanding 310 341 (show Family.number ≠ .integer by decide) fun code _ => code.text
  refine ⟨c, f, hc, hf, ?_⟩
  rw [hlimits]
  exact ⟨by decide, rfl, fun h => absurd h.fraction (by decide)⟩

end Formatter

end Numerals
