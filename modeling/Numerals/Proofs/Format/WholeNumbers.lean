import Numerals.Proofs.Format.Construction
import Numerals.Proofs.Format.Limits
import Numerals.Proofs.Pattern.Cut

/-!
# Whole numbers

Whole numbers can be had in two ways: by a pattern that is cut before its decimal separator, or by a
formatter for all numbers that is limited to no fraction digits. `Formatter.AgreeOnWhole` says in
what two formatters must agree to show whole numbers alike. Every adjustment of both that leaves the
fraction digits alone keeps it (`AgreeOnWhole.adjusted`), and it makes them give the same answer
for every value (`AgreeOnWhole.format`). `Formatter.integer_eq_number` says when the two ways agree.
-/

namespace Numerals

/-- A lone zero is shown where a whole magnitude has no digits, so that one digit at least and none
at least are the same. -/
theorem NumberBody.ofDecimal_whole {x : Decimal} (hx : x.fractionDigits = []) {l l' : DigitLimits}
    (hmin : l.minInteger = l'.minInteger ∨ l.minInteger ≤ 1 ∧ l'.minInteger ≤ 1)
    (hmax : l.maxInteger = l'.maxInteger) (hl : l.minFraction = 0) (hl' : l'.minFraction = 0) :
    ofDecimal x l = ofDecimal x l' := by
  unfold ofDecimal
  rw [hx, hl, hl', hmax]
  dsimp only
  generalize x.integerDigits.drop (x.integerDigits.length - l'.maxInteger) = integer
  rcases hmin with h | ⟨h, h'⟩
  · rw [h]
  · cases integer with
    | nil =>
      rcases Nat.le_one_iff_eq_zero_or_eq_one.1 h with h | h <;>
        rcases Nat.le_one_iff_eq_zero_or_eq_one.1 h' with h' | h' <;> rw [h, h'] <;> rfl
    | cons d ds =>
      have hzeros {n : Nat} (hn : n ≤ 1) :
          List.replicate (n - (d :: ds).length) (0 : Digit) = [] := by
        rw [List.length_cons, Nat.sub_eq_zero_of_le (by omega)]
        rfl
      rw [hzeros h, hzeros h']

namespace Formatter

/-! ## Formatters that agree -/

/-- Two formatters that show whole numbers alike. -/
structure AgreeOnWhole (f g : Formatter) : Prop where
  locale : f.locale = g.locale
  symbols : f.symbols = g.symbols
  positive : f.pattern.positive = g.pattern.positive
  negative : f.pattern.negative = g.pattern.negative
  groupingSize : f.pattern.groupingSize = g.pattern.groupingSize
  groupingUsed : f.settings.groupingUsed = g.settings.groupingUsed
  roundingMode : f.settings.roundingMode = g.settings.roundingMode
  multiplier : f.settings.multiplier = g.settings.multiplier
  currency : f.settings.currency = g.settings.currency
  separator : f.settings.separatorAlwaysShown = g.settings.separatorAlwaysShown
  maxInteger : f.settings.limits.maxInteger = g.settings.limits.maxInteger
  /-- A lone zero makes up for a digit that one of them need not show. -/
  minInteger : f.settings.limits.minInteger = g.settings.limits.minInteger ∨
    f.settings.limits.minInteger ≤ 1 ∧ g.settings.limits.minInteger ≤ 1
  left_fraction : f.settings.limits.fraction = ⟨0, 0⟩
  right_fraction : g.settings.limits.fraction = ⟨0, 0⟩

namespace AgreeOnWhole

variable {f g : Formatter}

theorem adjusted (h : AgreeOnWhole f g) {a : Adjustment} (ha : a.setting ≠ .fractionDigits) :
    AgreeOnWhole (f.adjusted a) (g.adjusted a) := by
  cases a with
  | minFraction n => exact absurd rfl ha
  | maxFraction n => exact absurd rfl ha
  | groupingUsed used => exact { h with groupingUsed := rfl }
  | parseIntegerOnly only => exact { h with }
  | roundingMode mode => exact { h with roundingMode := rfl }
  | separatorAlwaysShown shown => exact { h with separator := rfl }
  | minInteger n =>
    exact { h with
      maxInteger := congrArg (max · _) h.maxInteger
      minInteger := .inl rfl }
  | maxInteger n =>
    refine { h with maxInteger := rfl, minInteger := ?_ }
    rcases h.minInteger with hmin | ⟨hmin, hmin'⟩
    · exact .inl (congrArg (min · n) hmin)
    · exact .inr ⟨(Nat.min_le_left _ _).trans hmin, (Nat.min_le_left _ _).trans hmin'⟩
  | multiplier factor =>
    unfold Formatter.adjusted adjust Settings.adjust
    dsimp only
    split
    · exact { h with multiplier := rfl }
    · exact h
  | currency c => exact { h with currency := rfl }
  | currencyCode code symbols =>
    exact { h with
      currency := congrArg (fun l => some (⟨code, symbols code l⟩ : Currency)) h.locale }

theorem adjustAll (h : AgreeOnWhole f g) {as : List Adjustment}
    (has : ∀ a ∈ as, a.setting ≠ .fractionDigits) :
    AgreeOnWhole (f.adjustAll as) (g.adjustAll as) := by
  induction as generalizing f g with
  | nil => exact h
  | cons a as ih =>
    exact ih (h.adjusted (has a List.mem_cons_self)) fun b hb => has b (List.mem_cons_of_mem _ hb)

theorem surround (h : AgreeOnWhole f g) (negative : Bool) (body : String) :
    f.surround negative body = g.surround negative body := by
  unfold Formatter.surround Pattern.surround
  rw [h.positive, h.negative, h.symbols, h.currency]

theorem right_maxFraction (h : AgreeOnWhole f g) : g.settings.limits.maxFraction = 0 :=
  congrArg DigitBounds.greatest h.right_fraction

theorem maxFraction (h : AgreeOnWhole f g) :
    f.settings.limits.maxFraction = g.settings.limits.maxFraction :=
  congrArg DigitBounds.greatest (h.left_fraction.trans h.right_fraction.symm)

theorem scaled (h : AgreeOnWhole f g) (negative : Bool) (magnitude : Decimal) :
    f.scaled negative magnitude = g.scaled negative magnitude := by
  unfold Formatter.scaled
  rw [h.multiplier, h.roundingMode, h.maxFraction]

theorem bodyText (h : AgreeOnWhole f g) {x : Decimal} (hx : x.fractionDigits = []) :
    f.bodyText x = g.bodyText x := by
  have hbody := NumberBody.ofDecimal_whole hx h.minInteger h.maxInteger
    (congrArg DigitBounds.least h.left_fraction) (congrArg DigitBounds.least h.right_fraction)
  unfold Formatter.bodyText Formatter.groupingSize
  rw [hbody, h.groupingUsed, h.groupingSize, h.separator, h.symbols]

theorem format (h : AgreeOnWhole f g) (v : Numeric) : f.format v = g.format v := by
  unfold Formatter.format
  cases v.normalized.quantity with
  | nan => exact congrArg (fun s : Symbols => Except.ok s.nan) h.symbols
  | infinite negative =>
    unfold formatQuantity
    dsimp only
    rw [h.surround, h.multiplier, h.symbols]
  | finite negative magnitude =>
    unfold formatQuantity
    dsimp only
    rw [h.multiplier, h.scaled]
    cases hx : g.scaled (negative != g.settings.multiplier.isNegative) magnitude with
    | none => exact congrArg (fun n => Except.error (FormatError.roundingNecessary n)) h.maxFraction
    | some x =>
      dsimp only
      rw [Formatter.scaled, h.right_maxFraction] at hx
      rw [h.surround, h.bodyText (Decimal.fractionDigits_of_round (Decimal.canonical_mul _ _) hx)]

end AgreeOnWhole

/-! ## The two families -/

section
variable {p p' : Pattern} {startsWithPoint : Bool} (hordered : p.limits.Ordered)
  (hmax : p.limits.maxInteger = unboundedDigits)
  (hpoint : startsWithPoint = true → p.limits.minInteger = 0)
  (hlayout : p'.toLayout = p.toLayout.withoutFraction startsWithPoint)
  (hpositive : p'.positive = p.positive) (hnegative : p'.negative = p.negative)
include hordered hmax hpoint hlayout hpositive hnegative

/-- The formatter of a cut pattern, and that of the whole pattern without fraction digits. -/
theorem agreeOnWhole_of_layout (l : Locale) (s : Symbols) :
    AgreeOnWhole
      { family := .integer, locale := l, pattern := p', symbols := s
        settings := { Settings.ofPattern p' with
          limits := p'.limits.setMaxFraction 0
          parseIntegerOnly := true
          separatorAlwaysShown := false } }
      (({ family := .number, locale := l, pattern := p, symbols := s
          settings := { Settings.ofPattern p with
            limits := p.limits.setMaxInteger unboundedDigits } } : Formatter).adjustAll
        [.maxFraction 0, .separatorAlwaysShown false]) where
  locale := rfl
  symbols := rfl
  positive := hpositive
  negative := hnegative
  groupingSize := by
    change p'.groupingSize = p.groupingSize
    rw [hlayout]
    rfl
  groupingUsed := rfl
  roundingMode := rfl
  multiplier := rfl
  currency := rfl
  separator := rfl
  maxInteger := by
    change p'.limits.maxInteger = unboundedDigits
    rw [hlayout]
    exact hmax
  minInteger := by
    have hcut : p'.limits.minInteger = if startsWithPoint then 1 else p.limits.minInteger := by
      rw [hlayout]
      rfl
    have hkept : min p.limits.minInteger unboundedDigits = p.limits.minInteger :=
      Nat.min_eq_left (hordered.integer.trans_eq hmax)
    change p'.limits.minInteger = min p.limits.minInteger unboundedDigits ∨
      p'.limits.minInteger ≤ 1 ∧ min p.limits.minInteger unboundedDigits ≤ 1
    rw [hcut, hkept]
    cases startsWithPoint with
    | false => exact .inl rfl
    | true => exact .inr ⟨Nat.le_refl 1, by rw [hpoint rfl]; exact Nat.zero_le 1⟩
  left_fraction := congrArg (DigitBounds.mk · 0) (Nat.min_zero _)
  right_fraction := congrArg (DigitBounds.mk · 0) (Nat.min_zero _)

end

/-- **Whole numbers in two ways.** Where a locale has a formatter for numbers it has one for whole
numbers. If no decimal separator stands outside quotes in its pattern, or nothing stands behind the
positive number and negative ones have a minus sign only, then the formatter for numbers, limited to
no fraction digits, gives the same text or error for every value, whatever else is adjusted in
both. The length of the pattern must fit a 64-bit count, as that of any text in a memory does. -/
theorem integer_eq_number {data : LocaleMap} {l : Locale} {f : Formatter}
    (h : number data l = .ok f) :
    ∃ g, integer data l = .ok g ∧
      ∀ text, data.resolvePattern l .decimal = .ok text → text.length ≤ unboundedDigits →
        .marker .point ∉ glyphs false text.toList ∨
          f.pattern.positive.back = [] ∧ f.pattern.negative = none →
        ∀ as : List Adjustment, (∀ a ∈ as, a.setting ≠ .fractionDigits) → ∀ v,
          (g.adjustAll as).format v =
            (f.adjustAll (.maxFraction 0 :: .separatorAlwaysShown false :: as)).format v := by
  obtain ⟨text, htext, h⟩ := bind_eq_ok_iff.1 h
  obtain ⟨f₀, hf₀, h⟩ := bind_eq_ok_iff.1 h
  obtain ⟨p, s, hp, hs, rfl⟩ := exists_of_ofPattern hf₀
  cases h
  obtain ⟨p', hp', hpositive, hlayout, hnegative⟩ := Pattern.exists_compileChars_beforePoint hp
  have hcut : Pattern.compile (Pattern.integerOnly text) = .ok p' := by
    rw [Pattern.compile, Pattern.integerOnly, String.toList_ofList]
    exact hp'
  refine ⟨_, bind_eq_ok_iff.2 ⟨text, htext, bind_eq_ok_iff.2 ⟨_, ofPattern_eq_ok hcut hs, rfl⟩⟩, ?_⟩
  intro text' htext' hlen haffixes as has v
  cases htext.symm.trans htext'
  have hsame : p'.positive = p.positive ∧ p'.negative = p.negative := by
    rcases haffixes with hnone | ⟨hback, hnone⟩
    · rw [Pattern.beforePoint_eq_self hnone] at hp'
      cases hp.symm.trans hp'
      exact ⟨rfl, rfl⟩
    · have hback : p.positive.back = [] := hback
      have hnone : p.negative = none := hnone
      rw [hpositive, hnegative (.inr hnone), hback, hnone, ite_self, ← hback]
      exact ⟨rfl, rfl⟩
  have hagree := agreeOnWhole_of_layout (Pattern.ordered_of_compile hp hlen)
    (Pattern.normal_of_compileChars hp).maxInteger (Pattern.minInteger_of_startsWithPoint hp)
    hlayout hsame.1 hsame.2 l s
  exact (hagree.adjustAll has).format v

/-- Of a body that starts with its decimal separator, the first way leaves a digit that the second
does not ask for. -/
theorem integer_eq_number_lone_zero :
    ∃ f g, number (.ofList [{ id := .root, decimalPattern := some "'no.' .##" }]) .root = .ok f ∧
      integer (.ofList [{ id := .root, decimalPattern := some "'no.' .##" }]) .root = .ok g ∧
      f.pattern.limits.minInteger = 0 ∧ g.pattern.limits.minInteger = 1 ∧
      (g.adjustAll [.roundingMode .floor, .multiplier (-3)]).format halfway =
        (f.adjustAll [.maxFraction 0, .separatorAlwaysShown false, .roundingMode .floor,
          .multiplier (-3)]).format halfway ∧
      (g.adjustAll [.roundingMode .floor, .multiplier 3]).format (.integer 0) = .ok "no. 0" := by
  have hf : number (.ofList [{ id := .root, decimalPattern := some "'no.' .##" }]) .root = .ok
      { family := .number
        locale := .root
        pattern :=
          { limits := { minInteger := 0, maxFraction := 2 }
            positive := { front := [.literal "no. "] } }
        symbols := {}
        settings := { limits := { minInteger := 0, maxFraction := 2 } } } := by
    decide +kernel
  have hg : integer (.ofList [{ id := .root, decimalPattern := some "'no.' .##" }]) .root = .ok
      { family := .integer
        locale := .root
        pattern := { positive := { front := [.literal "no. "] } }
        symbols := {}
        settings := { parseIntegerOnly := true } } := by
    decide +kernel
  obtain ⟨g, hg', hagree⟩ := integer_eq_number hf
  cases hg.symm.trans hg'
  have hagree := hagree "'no.' .##" (by decide +kernel) (by decide) (.inr ⟨rfl, rfl⟩)
  refine ⟨_, _, hf, hg, rfl, rfl, hagree _ (by decide) halfway, ?_⟩
  rw [hagree [.roundingMode .floor, .multiplier 3] (by decide)]
  decide +kernel

end Formatter

end Numerals
