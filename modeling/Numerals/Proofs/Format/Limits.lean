import Numerals.Locale.Bundled
import Numerals.Proofs.Format.Construction
import Numerals.Proofs.Format.Output
import Numerals.Proofs.Format.Runs
import Numerals.Proofs.Locale.Walk
import Numerals.Proofs.Pattern.IntegerOnly

/-!
# Limits of the shown digits

The digit limits of a formatter are in order when it is made, and every call keeps them so
(`Formatter.ordered_make`, `Formatter.ordered_run`). Digits that show a rounded result under limits
in order obey all of them (`NumberBody.Shows.obeys`). `Formatter.run_limits` puts both together.
-/

namespace Numerals

/-! ## Limits of patterns -/

namespace LocaleMap

/-- Every pattern of the data is short enough for its characters to be counted with 64 bits, as all
text in a memory is. -/
def PatternsFit (m : LocaleMap) : Prop :=
  ∀ d ∈ m.values, ∀ c, ∀ text ∈ d.pattern c, text.length ≤ unboundedDigits

theorem PatternsFit.resolvePattern {m : LocaleMap} (h : m.PatternsFit) {l : Locale} {c : Category}
    {text : String} (htext : m.resolvePattern l c = .ok text) : text.length ≤ unboundedDigits := by
  obtain ⟨d, hd, hpattern⟩ := List.exists_of_findSome?_eq_some (resolvePattern_eq_ok_iff.1 htext)
  exact h d (mem_values_of_mem_ancestry d hd) c text hpattern

end LocaleMap

namespace Pattern

/-- The least number of integer digits has a character each in the text, so a text that is not too
long asks for limits in order. -/
theorem ordered_of_compile {text : String} {p : Pattern} (h : compile text = .ok p)
    (hlen : text.length ≤ unboundedDigits) : p.limits.Ordered := by
  obtain ⟨n, m, hg⟩ := exists_compileChars_iff.1 ⟨p, h⟩
  obtain ⟨hlayout, -⟩ := layout_of_compileChars h hg
  have hmarkers : n.markers.length ≤ text.length := by
    calc n.markers.length = (Glyph.body (positiveGlyphs (glyphs false text.toList))).length := by
          rw [hg.positive.body, List.length_map]
      _ ≤ (positiveGlyphs (glyphs false text.toList)).length :=
          (List.rdropWhile_prefix _ _).length_le.trans (List.dropWhile_sublist _).length_le
      _ ≤ (glyphs false text.toList).length := (List.takeWhile_sublist _).length_le
      _ = text.length := length_glyphs _ _
  have hcount : n.integer.count .required ≤ n.markers.length :=
    List.count_le_length.trans (by simp [NumberForm.markers])
  rw [hlayout]
  refine ⟨?_, List.count_le_length⟩
  show (if n.markers = [] then 1 else n.integer.count .required) ≤ unboundedDigits
  split
  · decide
  · omega

theorem length_integerOnly_le (text : String) : (integerOnly text).length ≤ text.length := by
  rw [integerOnly, String.length_ofList, ← length_glyphs false, glyphs_beforePoint]
  exact (List.takeWhile_sublist _).length_le.trans_eq (length_glyphs _ _)

end Pattern

/-! ## Digits within limits -/

namespace NumberBody

open Digits

/-- A body has neither integer nor fraction digits of its own. -/
def IsEmpty (b : NumberBody) (l : DigitLimits) (r : ℚ) : Prop :=
  b.fraction = [] ∧ l.minInteger = 0 ∧ (l.maxInteger = 0 ∨ r < 1)

/-- The digits that stand for a magnitude keep to the limits. A lone zero stands for a body that
would be empty. -/
structure Obeys (b : NumberBody) (l : DigitLimits) (r : ℚ) : Prop where
  fraction_least : l.minFraction ≤ b.fraction.length
  fraction_greatest : b.fraction.length ≤ l.maxFraction
  /-- No zero ends the fraction beyond its least number of digits. -/
  fraction_last : l.minFraction < b.fraction.length → b.fraction.getLast? ≠ some 0
  lone_zero : b.IsEmpty l r → b.integer = [0]
  integer_least : ¬b.IsEmpty l r → l.minInteger ≤ b.integer.length
  integer_greatest : ¬b.IsEmpty l r → b.integer.length ≤ l.maxInteger

theorem integerCount_eq_zero_iff {l : DigitLimits} {r : ℚ} :
    integerCount l r = 0 ↔ l.minInteger = 0 ∧ (l.maxInteger = 0 ∨ r < 1) := by
  have hfloor : r < 1 ↔ (Nat.digits 10 ⌊r⌋₊).length = 0 := by
    rw [List.length_eq_zero_iff, Nat.digits_eq_nil_iff_eq_zero, Nat.floor_eq_zero]
  rw [hfloor, integerCount]
  omega

variable {b : NumberBody} {l : DigitLimits} {r : ℚ}

/-- A multiple of the unit of the last place that the limits allow has no digits after it. -/
theorem Shows.fraction_length_le (hb : b.Shows l r) (hl : l.minFraction ≤ l.maxFraction) {k : ℤ}
    (hr : r * 10 ^ l.maxFraction = k) : b.fraction.length ≤ l.maxFraction := by
  by_contra hlong
  obtain ⟨m, hm⟩ : ∃ m, b.fraction.length = l.maxFraction + (m + 1) :=
    ⟨b.fraction.length - l.maxFraction - 1, by omega⟩
  obtain ⟨ds, d, hds⟩ := (List.eq_nil_or_concat b.fraction).resolve_left
    (List.ne_nil_of_length_pos (by omega))
  rw [List.concat_eq_append] at hds
  have hvalue : (toNat b.fraction : ℤ) = (k - ⌊r⌋ * 10 ^ l.maxFraction) * 10 ^ m * 10 := by
    have hfract := hb.fraction_value
    rw [hm, div_eq_iff (by positivity), Int.fract, pow_add, pow_succ] at hfract
    have : (toNat b.fraction : ℚ) = (k - ⌊r⌋ * 10 ^ l.maxFraction) * 10 ^ m * 10 := by
      rw [hfract, ← hr]
      ring
    exact_mod_cast this
  -- the last digit is a zero, which the limits do not ask for
  refine hb.fraction_last (by omega) ?_
  rw [hds, toNat_concat] at hvalue
  have hd : d = 0 := Fin.ext (by have := d.isLt; show d.val = 0; omega)
  rw [hds, List.getLast?_concat, hd]

theorem Shows.obeys (hb : b.Shows l r) (hl : l.Ordered) {k : ℤ}
    (hr : r * 10 ^ l.maxFraction = k) : b.Obeys l r := by
  have hempty : b.IsEmpty l r ↔ integerCount l r = 0 ∧ b.fraction = [] := by
    rw [integerCount_eq_zero_iff, IsEmpty, and_comm]
  have hlength := hb.integer_length
  have hinteger := hl.integer
  refine ⟨hb.fraction_least, hb.fraction_length_le hl.fraction hr, hb.fraction_last,
    fun he => ?_, fun he => ?_, fun he => ?_⟩
  · rw [if_pos (hempty.1 he)] at hlength
    obtain ⟨d, hd⟩ := List.length_eq_one_iff.1 hlength
    have hzero : ⌊r⌋₊ % 10 ^ l.maxInteger = 0 := by
      rcases he.2.2 with hmax | hlt
      · rw [hmax, pow_zero, Nat.mod_one]
      · rw [Nat.floor_eq_zero.2 hlt, Nat.zero_mod]
    have hvalue := hb.integer_value
    rw [hd, hzero, toNat_cons, List.length_nil, pow_zero, Nat.mul_one] at hvalue
    rw [hd, Fin.ext (show d.val = (0 : Digit).val from hvalue)]
  · rw [hlength, if_neg (mt hempty.2 he), integerCount]
    omega
  · rw [hlength, if_neg (mt hempty.2 he), integerCount]
    omega

end NumberBody

namespace Formatter

/-! ## Limits in order -/

theorem ordered_make {family : Family} {data : LocaleMap} {symbols : CurrencySymbols} {l : Locale}
    {f : Formatter} (hfit : data.PatternsFit) (h : make family data symbols l = .ok f) :
    f.settings.limits.Ordered := by
  obtain ⟨text, htext, hp, hlimits⟩ := exists_of_make h
  have hlen := hfit.resolvePattern htext
  rw [hlimits]
  cases family with
  | number => exact (Pattern.ordered_of_compile hp hlen).setMaxInteger _
  | integer =>
    have hcut := (Pattern.length_integerOnly_le text).trans hlen
    exact (Pattern.ordered_of_compile hp hcut).setMaxFraction _
  | currency => exact Pattern.ordered_of_compile hp hlen
  | percent => exact (Pattern.ordered_of_compile hp hlen).setMaxFraction _

variable {f : Formatter}

theorem ordered_adjusted (h : f.settings.limits.Ordered) (a : Adjustment) :
    (f.adjusted a).settings.limits.Ordered := by
  cases a with
  | minInteger n => exact h.setMinInteger n
  | maxInteger n => exact h.setMaxInteger n
  | minFraction n => exact h.setMinFraction n
  | maxFraction n => exact h.setMaxFraction n
  | multiplier factor =>
    unfold adjusted adjust Settings.adjust
    dsimp only
    split <;> exact h
  | _ => exact h

theorem ordered_run (h : f.settings.limits.Ordered) (calls : List Call) :
    (f.run calls).settings.limits.Ordered := by
  induction calls generalizing f with
  | nil => exact h
  | cons c calls ih =>
    cases c with
    | adjust a => exact ih (ordered_adjusted h a)
    | format v => exact ih h
    | formatScalar v => exact ih h

/-! ## Digits over whole runs -/

theorem exists_of_rounded? {x r : ℚ} (h : f.rounded? x = some r) :
    ∃ k : ℤ, |r| * 10 ^ f.settings.limits.maxFraction = k := by
  obtain ⟨k, -, rfl⟩ := Option.map_eq_some_iff.1 h
  have hten : (0 : ℚ) < 10 ^ f.settings.limits.maxFraction := by positivity
  exact ⟨|k|, by rw [abs_div, abs_of_pos hten, div_mul_cancel₀ _ hten.ne', Int.cast_abs]⟩

/-- **Digits over whole runs.** Whatever is called on a formatter of any family over any data, its
limits are in order, and the text of a finite value is that of digits which show the rounded result
and keep to these limits. -/
theorem run_limits {family : Family} {data : LocaleMap} {symbols : CurrencySymbols} {l : Locale}
    (hfit : data.PatternsFit) (hf : make family data symbols l = .ok f) (calls : List Call) :
    (f.run calls).settings.limits.Ordered ∧
      ∀ v x text, v.value? = some x → (f.run calls).format v = .ok text →
        ∃ r, (f.run calls).rounded? x = some r ∧
          ∃ b : NumberBody, b.Shows (f.run calls).settings.limits |r| ∧
            b.Obeys (f.run calls).settings.limits |r| ∧
            text = (f.run calls).numberText (decide (r < 0)) b := by
  have hordered := ordered_run (ordered_make hfit hf) calls
  refine ⟨hordered, fun v x text hx htext => ?_⟩
  obtain ⟨r, hr, b, hb, rfl⟩ := ((f.run calls).format_eq_ok_iff hx).1 htext
  obtain ⟨k, hk⟩ := exists_of_rounded? hr
  exact ⟨r, hr, b, hb, hb.obeys hordered hk, rfl⟩

/-- Of the integer digits the two that the greatest number leaves, after a least number that was
larger, and a zero more than the value has fraction digits. -/
theorem run_limits_root :
    ∃ f g, (LocaleMap.ofList Bundled.rootData).PatternsFit ∧
      make .number (.ofList Bundled.rootData) (fun code _ => code.text) .root = .ok f ∧
      g = f.run [.adjust (.minInteger 400), .adjust (.maxInteger 2), .adjust (.multiplier 0),
        .adjust (.minFraction 4)] ∧
      halfway.value? = some (-1234.565) ∧ g.format halfway = .ok "-34.5650" ∧
      g.settings.limits.Ordered ∧
      ∃ r, g.rounded? (-1234.565) = some r ∧
        ∃ b : NumberBody, b.Shows g.settings.limits |r| ∧ b.Obeys g.settings.limits |r| ∧
          "-34.5650" = g.numberText (decide (r < 0)) b := by
  have hfit : (LocaleMap.ofList Bundled.rootData).PatternsFit := by
    intro d hd c text htext
    obtain rfl := List.mem_singleton.1 hd
    cases c <;> cases htext <;> decide
  have hf : make .number (.ofList Bundled.rootData) (fun code _ => code.text) .root = .ok
      { family := .number
        locale := .root
        pattern := { groupingSize := 3, limits := { maxFraction := 3 } }
        symbols := {}
        settings := { limits := { maxFraction := 3 } } } := by
    decide +kernel
  have hx : halfway.value? = some (-1234.565) := by decide +kernel
  obtain ⟨hordered, hdigits⟩ := run_limits hfit hf [.adjust (.minInteger 400),
    .adjust (.maxInteger 2), .adjust (.multiplier 0), .adjust (.minFraction 4)]
  refine ⟨_, _, hfit, hf, rfl, hx, ?_, hordered, hdigits halfway _ _ hx ?_⟩ <;> decide +kernel

end Formatter

end Numerals
