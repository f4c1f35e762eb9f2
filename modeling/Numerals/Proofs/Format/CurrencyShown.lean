import Mathlib.Algebra.Order.BigOperators.Group.List
import Numerals.Proofs.Format.Output
import Numerals.Proofs.Pattern.Image

/-!
# Whether the currency shows

A formatter reads its currency nowhere but in the affixes around a body
(`Formatter.format_withCurrency`), and affixes read it just where they have a placeholder: there a
currency with longer texts makes them longer (`Affix.length_text_lt`). A pattern that compiles says
whether it has one in some sub-pattern. `Formatter.format_currency` puts this together: where the
pattern says no, nothing that is formatted depends on the currency, and where it says yes, the
currency shows in every configuration.
-/

namespace Numerals

/-! ## Longer texts -/

namespace Currency

/-- A currency with longer texts than another, or than what stands for no currency. -/
def longer (currency : Option Currency) : Currency where
  code := .ofText (((currency.map (·.code.text)).getD unknownCurrencyCode).push 'X')
  symbol := ((currency.map (·.symbol)).getD genericCurrencySign).push '¤'

end Currency

variable (symbols : Symbols) (currency : Option Currency)

theorem AffixPart.length_text_lt (display : CurrencyDisplay) :
    ((AffixPart.currency display).text symbols currency).length <
      ((AffixPart.currency display).text symbols (some (.longer currency))).length := by
  cases display with
  | symbol =>
    change _ < (((currency.map (·.symbol)).getD genericCurrencySign).push '¤').length
    rw [String.length_push]
    exact Nat.lt_succ_self _
  | isoCode =>
    change _ < (upperCase (((currency.map (·.code.text)).getD unknownCurrencyCode).push 'X')).length
    rw [upperCase, String.length_map, String.length_push]
    exact Nat.lt_succ_self _

theorem AffixPart.length_text_le (part : AffixPart) :
    (part.text symbols currency).length ≤ (part.text symbols (some (.longer currency))).length := by
  cases part with
  | currency display => exact (length_text_lt symbols currency display).le
  | _ => exact Nat.le_refl _

namespace Affix

theorem length_text (affix : Affix) :
    (affix.text symbols currency).length =
      (affix.map fun part => (part.text symbols currency).length).sum := by
  rw [text, String.length_join, List.map_map]
  rfl

theorem length_text_le (affix : Affix) :
    (affix.text symbols currency).length ≤
      (affix.text symbols (some (.longer currency))).length := by
  rw [length_text, length_text]
  exact List.sum_le_sum fun part _ => part.length_text_le symbols currency

theorem length_text_lt {affix : Affix} (h : affix.hasCurrency = true) :
    (affix.text symbols currency).length <
      (affix.text symbols (some (.longer currency))).length := by
  obtain ⟨display, hmem⟩ := hasCurrency_iff.1 h
  rw [length_text, length_text]
  exact List.sum_lt_sum _ _ (fun part _ => part.length_text_le symbols currency)
    ⟨_, hmem, AffixPart.length_text_lt symbols currency display⟩

/-- Without a placeholder there is nothing to read the currency for. -/
theorem text_congr {affix : Affix} (h : affix.hasCurrency = false) (currency' : Option Currency) :
    affix.text symbols currency = affix.text symbols currency' := by
  have hparts : ∀ part ∈ affix, part.text symbols currency = part.text symbols currency' := by
    intro part hpart
    cases part with
    | currency display =>
      rw [hasCurrency_iff.2 ⟨display, hpart⟩] at h
      cases h
    | _ => rfl
  rw [text, text, List.map_congr_left hparts]

end Affix

namespace SubPattern

theorem surround_congr {s : SubPattern} (h : s.hasCurrency = false) (currency' : Option Currency)
    (body : String) : s.surround symbols currency body = s.surround symbols currency' body := by
  obtain ⟨hfront, hback⟩ := Bool.or_eq_false_iff.1 h
  rw [surround, surround, Affix.text_congr symbols currency hfront currency',
    Affix.text_congr symbols currency hback currency']

theorem length_surround_lt {s : SubPattern} (h : s.hasCurrency = true) (body : String) :
    (s.surround symbols currency body).length <
      (s.surround symbols (some (.longer currency)) body).length := by
  have hfront := s.front.length_text_le symbols currency
  have hback := s.back.length_text_le symbols currency
  simp only [surround, String.length_append]
  rcases Bool.or_eq_true_iff.1 h with h | h
  · have := Affix.length_text_lt symbols currency h
    omega
  · have := Affix.length_text_lt symbols currency h
    omega

end SubPattern

/-! ## Patterns -/

namespace Pattern

variable (p : Pattern)

/-- The sub-pattern that surrounds numbers of a sign. -/
def shown (negative : Bool) : SubPattern :=
  if negative then p.negative.getD p.positive else p.positive

/-- What stands before it. -/
def signText (negative : Bool) : String :=
  if negative && p.negative.isNone then symbols.minusSign else ""

theorem surround_eq (negative : Bool) (body : String) :
    p.surround symbols currency negative body =
      p.signText symbols negative ++ (p.shown negative).surround symbols currency body := by
  unfold surround signText shown
  cases negative <;> cases p.negative <;> simp

variable {p}

/-- The flag of a compiled pattern tells whether some sub-pattern has a placeholder. -/
theorem hasCurrency_of_compileChars {text : List Char} (h : compileChars text = .ok p) :
    p.hasCurrency = true ↔ ∃ negative, (p.shown negative).hasCurrency = true := by
  have hflag : p.hasCurrency = (p.positive.hasCurrency || p.negative.any (·.hasCurrency)) := by
    obtain ⟨-, positive, layout, negative, -, -, rfl⟩ := compileChars_eq_ok_iff.1 h
    rfl
  rw [hflag, Bool.exists_bool]
  cases hnegative : p.negative <;> simp [shown, hnegative]

end Pattern

/-! ## Formatters -/

namespace Formatter

/-- The formatter with another currency, or none. -/
def withCurrency (f : Formatter) (currency : Option Currency) : Formatter :=
  { f with settings := { f.settings with currency } }

/-- **Where the currency is read.** A result does not depend on it, or it is a body between
affixes, the body not depending on it. -/
theorem format_withCurrency (f : Formatter) (v : Numeric) :
    (∃ result, ∀ c, (f.withCurrency c).format v = result) ∨
      ∃ negative body, ∀ c, (f.withCurrency c).format v =
        .ok (f.pattern.surround f.symbols c negative body) := by
  simp only [format]
  cases v.normalized.quantity with
  | nan => exact .inl ⟨.ok f.symbols.nan, fun c => rfl⟩
  | infinite negative =>
    exact .inr ⟨negative != f.settings.multiplier.isNegative, f.symbols.infinity, fun c => rfl⟩
  | finite negative magnitude =>
    have hscaled (c : Option Currency) (sign : Bool) :
        (f.withCurrency c).scaled sign magnitude = f.scaled sign magnitude := rfl
    have hsign (c : Option Currency) :
        (f.withCurrency c).settings.multiplier = f.settings.multiplier := rfl
    simp only [formatQuantity, hsign, hscaled]
    cases f.scaled (negative != f.settings.multiplier.isNegative) magnitude with
    | none =>
      exact .inl ⟨.error (.roundingNecessary f.settings.limits.maxFraction), fun c => rfl⟩
    | some x => exact .inr ⟨_, f.bodyText x, fun c => rfl⟩

theorem exists_format_infinite (f : Formatter) (negative : Bool) :
    ∃ v, ∀ c, (f.withCurrency c).format v =
      .ok (f.pattern.surround f.symbols c negative f.symbols.infinity) := by
  refine ⟨.real ⟨negative != f.settings.multiplier.isNegative, 2047, 0⟩, fun c => ?_⟩
  rw [format_of_infinite _ rfl rfl]
  have hsign : ((negative != f.settings.multiplier.isNegative) !=
      f.settings.multiplier.isNegative) = negative := by
    cases negative <;> cases f.settings.multiplier.isNegative <;> rfl
  exact congrArg
    (fun sign => Except.ok (f.pattern.surround f.symbols c sign f.symbols.infinity)) hsign

/-- **Whether the currency shows.** Of a pattern that compiles without the flag for it, no formatter
lets the currency change a result. Of one with the flag, each formatter shows some value differently
when its currency, or none, is replaced by another. -/
theorem format_currency {text : String} {p : Pattern} (h : Pattern.compile text = .ok p) :
    (p.hasCurrency = false → ∀ f : Formatter, f.pattern = p → ∀ v c c',
      (f.withCurrency c).format v = (f.withCurrency c').format v) ∧
    (p.hasCurrency = true → ∀ f : Formatter, f.pattern = p → ∃ v, ∀ c, ∃ c' s s',
      (f.withCurrency c).format v = .ok s ∧ (f.withCurrency (some c')).format v = .ok s' ∧
        s ≠ s') := by
  have hflag := Pattern.hasCurrency_of_compileChars h
  constructor
  · intro hnone f hf v c c'
    subst hf
    rcases f.format_withCurrency v with ⟨result, hresult⟩ | ⟨negative, body, hformat⟩
    · rw [hresult, hresult]
    · have hshown : (f.pattern.shown negative).hasCurrency = false := by
        rw [← Bool.not_eq_true]
        intro hshown
        rw [hflag.2 ⟨negative, hshown⟩] at hnone
        cases hnone
      rw [hformat, hformat, Pattern.surround_eq, Pattern.surround_eq,
        SubPattern.surround_congr _ c hshown c']
  · intro hsome f hf
    subst hf
    obtain ⟨negative, hshown⟩ := hflag.1 hsome
    obtain ⟨v, hformat⟩ := f.exists_format_infinite negative
    refine ⟨v, fun c => ⟨.longer c, _, _, hformat c, hformat _, ?_⟩⟩
    rw [Pattern.surround_eq, Pattern.surround_eq]
    intro heq
    have hlt := SubPattern.length_surround_lt f.symbols c hshown f.symbols.infinity
    rw [String.append_right_inj] at heq
    rw [heq] at hlt
    exact Nat.lt_irrefl _ hlt

/-- Formatters without a placeholder, and with one for the code behind negative numbers only. -/
theorem format_currency_negative :
    (∃ f : Formatter, Pattern.compile "'¤'#,##0.00" = .ok f.pattern ∧ ∀ v c c',
      (f.withCurrency c).format v = (f.withCurrency c').format v) ∧
    ∃ f : Formatter, Pattern.compile "0;(0 ¤¤)" = .ok f.pattern ∧ ∃ v c s s',
      (f.withCurrency none).format v = .ok s ∧ (f.withCurrency (some c)).format v = .ok s' ∧
        s ≠ s' := by
  have hplain : Pattern.compile "'¤'#,##0.00" = .ok
      { groupingSize := 3
        limits := { minFraction := 2, maxFraction := 2 }
        positive := { front := [.literal "¤"] } } := by
    decide +kernel
  have hcode : Pattern.compile "0;(0 ¤¤)" = .ok
      { negative := some
          { front := [.literal "("], back := [.literal " ", .currency .isoCode, .literal ")"] }
        hasCurrency := true } := by
    decide +kernel
  obtain ⟨v, hv⟩ := (format_currency hcode).2 rfl ⟨.currency, .root, _, {}, {}⟩ rfl
  exact ⟨⟨⟨.currency, .root, _, {}, {}⟩, hplain, (format_currency hplain).1 rfl _ rfl⟩,
    ⟨.currency, .root, _, {}, {}⟩, hcode, v, hv none⟩

end Formatter

end Numerals
