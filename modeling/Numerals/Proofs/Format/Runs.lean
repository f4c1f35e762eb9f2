import Numerals.Format.Formatter
import Mathlib.Data.List.Basic

/-!
# Runs of calls

Between two adjustments a formatter may format any number of values, and some calls fail. What is
left of a run of calls is told setting by setting (`Settings.after`): most settings have the last
value that was given for them, and the limits of the integer and of the fraction digits come each
from the calls that set one of their two bounds, in order.

`Formatter.adjusted_eq` says what one adjustment does to every setting, `Formatter.adjustAll_eq`
what all of them do, and `Formatter.run_settings` what a run of calls does. Adjustments of different
settings do not depend on each other's order (`Settings.after_congr`).
-/

namespace Numerals

/-! ## Calls -/

/-- What a formatter may be asked to do. -/
inductive Call where
  | adjust (a : Adjustment)
  | format (v : Numeric)
  | formatScalar (v : Scalar)

/-- The adjustment that a call asks for. -/
def Call.adjustment? : Call → Option Adjustment
  | adjust a => some a
  | _ => none

namespace Formatter

/-- The formatter after an adjustment; one that is rejected changes nothing. -/
def adjusted (f : Formatter) (a : Adjustment) : Formatter := (f.adjust a).toOption.getD f

/-- The answer to a call, with a text where one was asked for, and the formatter after it. -/
def call (f : Formatter) : Call → Except FormatError (Option String) × Formatter
  | .adjust a => ((f.adjust a).map fun _ => none, f.adjusted a)
  | .format v => ((f.format v).map some, f)
  | .formatScalar v => ((f.formatScalar v).map some, f)

/-- The formatter after some calls. -/
def run (f : Formatter) (calls : List Call) : Formatter :=
  calls.foldl (fun f c => (f.call c).2) f

end Formatter

/-! ## Bounds of digits -/

/-- A least and a greatest number of digits. -/
structure DigitBounds where
  least : Nat
  greatest : Nat

/-- One of the two bounds, with its new value. -/
inductive DigitBound where
  | least (n : Nat)
  | greatest (n : Nat)

/-- Sets a bound, a least one to at most `most`. The other bound stays, unless the order would
break: then it gets the same value. -/
def DigitBounds.set (most : Nat) (b : DigitBounds) : DigitBound → DigitBounds
  | .least n =>
    { least := min n most
      greatest := if b.greatest < min n most then min n most else b.greatest }
  | .greatest n =>
    { least := if n < b.least then n else b.least
      greatest := n }

namespace DigitLimits

def integer (l : DigitLimits) : DigitBounds := ⟨l.minInteger, l.maxInteger⟩

def fraction (l : DigitLimits) : DigitBounds := ⟨l.minFraction, l.maxFraction⟩

/-- The limits with these bounds. -/
def ofBounds (integer fraction : DigitBounds) : DigitLimits where
  minInteger := integer.least
  maxInteger := integer.greatest
  minFraction := fraction.least
  maxFraction := fraction.greatest

theorem max_eq_ite (m n : Nat) : max m n = if m < n then n else m := by
  split <;> omega

theorem min_eq_ite (m n : Nat) : min m n = if n < m then n else m := by
  split <;> omega

variable (l : DigitLimits) (n : Nat)

theorem setMinInteger_eq :
    l.setMinInteger n = ofBounds (l.integer.set mostMinInteger (.least n)) l.fraction := by
  simp only [setMinInteger, max_eq_ite l.maxInteger]
  rfl

theorem setMaxInteger_eq :
    l.setMaxInteger n = ofBounds (l.integer.set mostMinInteger (.greatest n)) l.fraction := by
  simp only [setMaxInteger, min_eq_ite]
  rfl

theorem setMinFraction_eq :
    l.setMinFraction n = ofBounds l.integer (l.fraction.set mostMinFraction (.least n)) := by
  simp only [setMinFraction, max_eq_ite l.maxFraction]
  rfl

theorem setMaxFraction_eq :
    l.setMaxFraction n = ofBounds l.integer (l.fraction.set mostMinFraction (.greatest n)) := by
  simp only [setMaxFraction, min_eq_ite]
  rfl

end DigitLimits

/-! ## What an adjustment gives -/

/-- What an adjustment is about. Both bounds of a pair are one setting. -/
inductive Setting where
  | groupingUsed
  | parseIntegerOnly
  | roundingMode
  | separatorAlwaysShown
  | integerDigits
  | fractionDigits
  | multiplier
  | currency
  deriving DecidableEq

namespace Adjustment

def setting : Adjustment → Setting
  | groupingUsed _ => .groupingUsed
  | parseIntegerOnly _ => .parseIntegerOnly
  | roundingMode _ => .roundingMode
  | separatorAlwaysShown _ => .separatorAlwaysShown
  | minInteger _ => .integerDigits
  | maxInteger _ => .integerDigits
  | minFraction _ => .fractionDigits
  | maxFraction _ => .fractionDigits
  | multiplier _ => .multiplier
  | currency _ => .currency
  | currencyCode _ _ => .currency

def groupingUsed? : Adjustment → Option Bool
  | groupingUsed used => some used
  | _ => none

def parseIntegerOnly? : Adjustment → Option Bool
  | parseIntegerOnly only => some only
  | _ => none

def roundingMode? : Adjustment → Option RoundingMode
  | roundingMode mode => some mode
  | _ => none

def separatorAlwaysShown? : Adjustment → Option Bool
  | separatorAlwaysShown shown => some shown
  | _ => none

/-- The multiplier that is given, unless it is zero. -/
def multiplier? : Adjustment → Option Multiplier
  | multiplier factor => if h : factor ≠ 0 then some ⟨factor, h⟩ else none
  | _ => none

/-- The currency that is given, as a formatter of the locale `l` displays it. -/
def currency? (l : Locale) : Adjustment → Option Currency
  | currency c => some c
  | currencyCode code symbols => some ⟨code, symbols code l⟩
  | _ => none

def integerBound? : Adjustment → Option DigitBound
  | minInteger n => some (.least n)
  | maxInteger n => some (.greatest n)
  | _ => none

def fractionBound? : Adjustment → Option DigitBound
  | minFraction n => some (.least n)
  | maxFraction n => some (.greatest n)
  | _ => none

end Adjustment

/-- The value that was given last, or the one from before if none was given. -/
def lastGiven {α : Type} (given? : Adjustment → Option α) (as : List Adjustment) (before : α) : α :=
  (as.filterMap given?).getLast?.getD before

/-- The settings after some adjustments of a formatter of the locale `l`, each for itself. -/
def Settings.after (s : Settings) (l : Locale) (as : List Adjustment) : Settings where
  groupingUsed := lastGiven Adjustment.groupingUsed? as s.groupingUsed
  parseIntegerOnly := lastGiven Adjustment.parseIntegerOnly? as s.parseIntegerOnly
  roundingMode := lastGiven Adjustment.roundingMode? as s.roundingMode
  separatorAlwaysShown := lastGiven Adjustment.separatorAlwaysShown? as s.separatorAlwaysShown
  currency := lastGiven (fun a => (a.currency? l).map some) as s.currency
  limits := .ofBounds
    ((as.filterMap Adjustment.integerBound?).foldl (.set DigitLimits.mostMinInteger)
      s.limits.integer)
    ((as.filterMap Adjustment.fractionBound?).foldl (.set DigitLimits.mostMinFraction)
      s.limits.fraction)
  multiplier := lastGiven Adjustment.multiplier? as s.multiplier

/-! ## Composing adjustments -/

theorem lastGiven_append {α : Type} (given? : Adjustment → Option α) (as bs : List Adjustment)
    (before : α) :
    lastGiven given? (as ++ bs) before = lastGiven given? bs (lastGiven given? as before) := by
  simp only [lastGiven, List.filterMap_append, List.getLast?_append]
  cases (bs.filterMap given?).getLast? <;> rfl

theorem Settings.after_append (s : Settings) (l : Locale) (as bs : List Adjustment) :
    s.after l (as ++ bs) = (s.after l as).after l bs := by
  simp only [after, lastGiven_append, List.filterMap_append, List.foldl_append]
  rfl

/-- Adjustments of other settings say nothing about a setting. -/
theorem Adjustment.filterMap_filter_setting {α : Type} {given? : Adjustment → Option α}
    {s : Setting} (h : ∀ a : Adjustment, a.setting ≠ s → given? a = none)
    (as : List Adjustment) :
    (as.filter fun a => a.setting = s).filterMap given? = as.filterMap given? := by
  rw [List.filterMap_filter]
  refine List.filterMap_congr fun a _ => ?_
  by_cases ha : a.setting = s
  · simp [ha]
  · simp [ha, h a ha]

/-- What is left of adjustments depends, for every setting, on the adjustments of that setting and
their order only. -/
theorem Settings.after_congr {as bs : List Adjustment}
    (h : ∀ s, (as.filter fun a => a.setting = s) = bs.filter fun a => a.setting = s)
    (s : Settings) (l : Locale) : s.after l as = s.after l bs := by
  have own (k : Setting) {α : Type} {given? : Adjustment → Option α}
      (hk : ∀ a : Adjustment, a.setting ≠ k → given? a = none) :
      as.filterMap given? = bs.filterMap given? := by
    rw [← Adjustment.filterMap_filter_setting hk, h k, Adjustment.filterMap_filter_setting hk]
  have hgrouping : as.filterMap Adjustment.groupingUsed? = _ :=
    own .groupingUsed fun a ha => by cases a <;> first | rfl | exact absurd rfl ha
  have hparse : as.filterMap Adjustment.parseIntegerOnly? = _ :=
    own .parseIntegerOnly fun a ha => by cases a <;> first | rfl | exact absurd rfl ha
  have hmode : as.filterMap Adjustment.roundingMode? = _ :=
    own .roundingMode fun a ha => by cases a <;> first | rfl | exact absurd rfl ha
  have hseparator : as.filterMap Adjustment.separatorAlwaysShown? = _ :=
    own .separatorAlwaysShown fun a ha => by cases a <;> first | rfl | exact absurd rfl ha
  have hmultiplier : as.filterMap Adjustment.multiplier? = _ :=
    own .multiplier fun a ha => by cases a <;> first | rfl | exact absurd rfl ha
  have hcurrency : as.filterMap (fun a => (a.currency? l).map some) = _ :=
    own .currency fun a ha => by cases a <;> first | rfl | exact absurd rfl ha
  have hinteger : as.filterMap Adjustment.integerBound? = _ :=
    own .integerDigits fun a ha => by cases a <;> first | rfl | exact absurd rfl ha
  have hfraction : as.filterMap Adjustment.fractionBound? = _ :=
    own .fractionDigits fun a ha => by cases a <;> first | rfl | exact absurd rfl ha
  simp only [after, lastGiven, hgrouping, hparse, hmode, hseparator, hmultiplier, hcurrency,
    hinteger, hfraction]

namespace Formatter

variable (f : Formatter)

/-! ## Runs -/

theorem adjusted_eq (a : Adjustment) :
    f.adjusted a = { f with settings := f.settings.after f.locale [a] } := by
  cases a with
  | minInteger n =>
    change { f with settings :=
      { f.settings with limits := f.settings.limits.setMinInteger n } } = _
    rw [DigitLimits.setMinInteger_eq]
    rfl
  | maxInteger n =>
    change { f with settings :=
      { f.settings with limits := f.settings.limits.setMaxInteger n } } = _
    rw [DigitLimits.setMaxInteger_eq]
    rfl
  | minFraction n =>
    change { f with settings :=
      { f.settings with limits := f.settings.limits.setMinFraction n } } = _
    rw [DigitLimits.setMinFraction_eq]
    rfl
  | maxFraction n =>
    change { f with settings :=
      { f.settings with limits := f.settings.limits.setMaxFraction n } } = _
    rw [DigitLimits.setMaxFraction_eq]
    rfl
  | multiplier factor =>
    by_cases h : factor ≠ 0
    · simp only [adjusted, adjust, Settings.adjust, Settings.after, lastGiven, List.filterMap_cons,
        Adjustment.multiplier?, dif_pos h]
      rfl
    · simp only [adjusted, adjust, Settings.adjust, Settings.after, lastGiven, List.filterMap_cons,
        Adjustment.multiplier?, dif_neg h]
      rfl
  | _ => rfl

/-- **All adjustments.** Every setting depends on its own adjustments only. -/
theorem adjustAll_eq (as : List Adjustment) :
    f.adjustAll as = { f with settings := f.settings.after f.locale as } := by
  induction as generalizing f with
  | nil => rfl
  | cons a as ih =>
    change (f.adjusted a).adjustAll as = _
    rw [ih, adjusted_eq, ← List.singleton_append (l := as), Settings.after_append]

/-- Formatting leaves nothing behind: a run does what its adjustments do. -/
theorem run_eq_adjustAll (calls : List Call) :
    f.run calls = f.adjustAll (calls.filterMap Call.adjustment?) := by
  induction calls generalizing f with
  | nil => rfl
  | cons c calls ih =>
    change (f.call c).2.run calls = _
    rw [ih]
    cases c <;> rfl

/-- **Runs of calls.** After any calls, each setting is what its own adjustments made of it, and
nothing else of the formatter has changed. A multiplier of zero is rejected and changes nothing, a
currency code counts in upper case, and adjustments of different settings may be swapped wherever
they stand in a run. -/
theorem run_settings (f : Formatter) (calls : List Call) :
    f.run calls =
      { f with settings := f.settings.after f.locale (calls.filterMap Call.adjustment?) } ∧
    (f.run calls).call (.adjust (.multiplier 0)) = (.error .zeroMultiplier, f.run calls) ∧
    (∀ text symbols, ∃ code : CurrencyCode, code.text = upperCase text ∧
      (f.run (calls ++ [.adjust (.currencyCode (.ofText text) symbols)])).settings.currency =
        some ⟨code, symbols code f.locale⟩) ∧
    ∀ (a b : Adjustment) (rest : List Call), a.setting ≠ b.setting →
      f.run (calls ++ .adjust a :: .adjust b :: rest) =
        f.run (calls ++ .adjust b :: .adjust a :: rest) := by
  have hrun (calls : List Call) := (f.run_eq_adjustAll calls).trans (f.adjustAll_eq _)
  refine ⟨hrun calls, rfl, fun text symbols => ⟨.ofText text, rfl, ?_⟩, fun a b rest hab => ?_⟩
  · rw [hrun, List.filterMap_append, Settings.after_append]
    rfl
  · rw [hrun, hrun, Settings.after_congr fun s => ?_]
    have hswap : ([a, b].filter fun c => c.setting = s) = [b, a].filter fun c => c.setting = s := by
      by_cases ha : a.setting = s
      · have hb : b.setting ≠ s := fun hb => hab (ha.trans hb.symm)
        simp [ha, hb]
      · by_cases hb : b.setting = s <;> simp [ha, hb]
    have hfilter (a b : Adjustment) :
        (calls ++ .adjust a :: .adjust b :: rest).filterMap Call.adjustment? =
          calls.filterMap Call.adjustment? ++ [a, b] ++ rest.filterMap Call.adjustment? := by
      simp [Call.adjustment?]
    rw [hfilter, hfilter, List.filter_append, List.filter_append, hswap, List.filter_append,
      List.filter_append]

/-- A formatter with all settings as they are for the pattern `0`. -/
def plain : Formatter where
  family := .number
  locale := .root
  pattern := {}
  symbols := {}
  settings := {}

/-- A least number of digits that is too large to be asked for, a multiplier of zero between the
calls, and a greatest number that moves the least one. -/
theorem run_settings_bounds :
    (Adjustment.minInteger 400).setting ≠ (Adjustment.multiplier 0).setting ∧
    plain.run [.format (.integer 7), .adjust (.minInteger 400), .adjust (.multiplier 0),
        .adjust (.maxInteger 3)] =
      plain.run [.format (.integer 7), .adjust (.multiplier 0), .adjust (.minInteger 400),
        .adjust (.maxInteger 3)] ∧
    (plain.run [.adjust (.minInteger 400), .adjust (.maxFraction 2)]).settings.limits =
      { minInteger := 309, maxFraction := 2 } ∧
    (plain.run [.adjust (.minInteger 400), .adjust (.maxInteger 3)]).settings.limits =
      { minInteger := 3, maxInteger := 3 } := by
  refine ⟨by decide, ?_, ?_, ?_⟩
  · exact (run_settings plain [.format (.integer 7)]).2.2.2 _ _ [.adjust (.maxInteger 3)]
      (by decide)
  · rw [(run_settings plain _).1]
    rfl
  · rw [(run_settings plain _).1]
    rfl

end Formatter

end Numerals
