import Numerals.Format.Formatter
import Numerals.Proofs.Decimal.Rounding
import Numerals.Proofs.Decimal.Shortest
import Numerals.Proofs.Format.Body

/-!
# Formatted values

`Numeric.value?` is the exact number that a finite value stands for, and `Formatter.Writes` the
text of a number that needs no more rounding: a sign, the affixes for that sign, written part by
part (`Affix.Writes`), and between them a body that shows the magnitude. Every finite value is
formatted as its product with the multiplier, rounded to the greatest number of fraction digits
(`formatQuantity_finite`), and only the mode that never rounds refuses. `format_eq_ok_iff` names the
rounded result and the digits that show it.
-/

namespace Numerals

open Digits RoundingMode

/-! ## Values -/

/-- The number that a value stands for, if it is finite; floating-point numbers stand for their
shortest decimals. -/
def Numeric.value? : Numeric → Option ℚ
  | .integer n => some n.toInt
  | .unsigned n => some n.toNat
  | .real x => if x.isFinite then some (signed x.negative x.magnitude.toRat) else none

theorem isFinite_of_natAbs? {x : Binary64} {n : Nat} (h : x.natAbs? = some n) :
    x.isFinite = true := by
  unfold Binary64.natAbs? at h
  split at h
  · cases h
  · next hfin => simpa using hfin

namespace Numeric

/-- A whole floating-point number within the exact bound becomes the integer that it stands for. -/
theorem exists_normalized_of_natAbs? {x : Binary64} {n : Nat} (h : x.natAbs? = some n)
    (hn : n ≤ 2 ^ 53) :
    ∃ k : Int64, (real x).normalized = .integer k ∧ k.toInt = signed x.negative (n : ℤ) := by
  have hle : n ≤ exactBound := hn
  refine ⟨Int64.ofInt (signed x.negative n), ?_, ?_⟩
  · rw [normalized]
    simp only [h, if_pos hle]
    rfl
  · refine Int64.toInt_ofInt_of_le ?_ ?_ <;> cases x.negative <;>
      simp only [signed, if_true, Bool.false_eq_true, if_false] <;> omega

theorem value?_normalized (v : Numeric) : v.normalized.value? = v.value? := by
  cases v with
  | integer n => rfl
  | unsigned n => rfl
  | real x =>
    cases hn : x.natAbs? with
    | none => simp only [normalized, hn]
    | some n =>
      by_cases hle : n ≤ 2 ^ 53
      · obtain ⟨k, hk, hint⟩ := exists_normalized_of_natAbs? hn hle
        rw [hk, value?, hint, value?, if_pos (isFinite_of_natAbs? hn),
          Binary64.toRat_magnitude hn hle]
        cases x.negative <;> simp [signed]
      · have hle : ¬n ≤ exactBound := hle
        simp only [normalized, hn, if_neg hle]

theorem signed_natAbs (n : Int64) : signed (decide (n < 0)) (n.toInt.natAbs : ℚ) = n.toInt := by
  have hlt : n < 0 ↔ n.toInt < 0 := Int64.lt_iff_toInt_lt
  rw [Nat.cast_natAbs, Int.cast_abs]
  by_cases h : n.toInt < 0
  · have hneg : (n.toInt : ℚ) < 0 := by exact_mod_cast h
    rw [decide_eq_true (hlt.2 h), abs_of_neg hneg]
    exact neg_neg _
  · have hnonneg : (0 : ℚ) ≤ n.toInt := by exact_mod_cast Int.not_lt.1 h
    rw [decide_eq_false (fun hn => h (hlt.1 hn)), abs_of_nonneg hnonneg]
    rfl

theorem quantity_of_finite {x : Binary64} (h : x.isFinite = true) :
    (real x).quantity = .finite x.negative x.magnitude := by
  have hexponent : x.exponentField ≠ 2047 := by simpa [Binary64.isFinite] using h
  simp [quantity, Binary64.isNaN, Binary64.isInfinite, hexponent]

/-- What a finite value denotes is a sign and a magnitude with that value. -/
theorem quantity_of_value? {v : Numeric} {x : ℚ} (h : v.value? = some x) :
    ∃ negative magnitude, v.quantity = .finite negative magnitude ∧
      x = signed negative magnitude.toRat := by
  cases v with
  | integer n =>
    cases h
    exact ⟨_, _, rfl, by rw [Decimal.toRat_ofNat, signed_natAbs]⟩
  | unsigned n =>
    cases h
    exact ⟨false, .ofNat n.toNat, rfl, (Decimal.toRat_ofNat _).symm⟩
  | real y =>
    unfold value? at h
    dsimp only at h
    split at h
    · next hfin =>
      cases h
      exact ⟨y.negative, y.magnitude, quantity_of_finite hfin, rfl⟩
    · cases h

theorem normalized_of_not_finite {x : Binary64} (h : x.isFinite = false) :
    (real x).normalized = real x := by
  simp [normalized, Binary64.natAbs?, h]

theorem quantity_of_infinite {x : Binary64} (hfinite : x.isFinite = false)
    (hnan : x.isNaN = false) : (real x).quantity = .infinite x.negative := by
  have hexponent : x.exponentField = 2047 := by simpa [Binary64.isFinite] using hfinite
  have hfraction : x.fractionField = 0 := by simpa [Binary64.isNaN, hexponent] using hnan
  simp [quantity, hnan, Binary64.isInfinite, hexponent, hfraction]

end Numeric

/-- The factor of a multiplier. -/
def Multiplier.toRat (m : Multiplier) : ℚ := m.value.toInt

theorem Multiplier.signed_mul (m : Multiplier) (negative : Bool) (a : ℚ) :
    signed negative a * m.toRat = signed (negative != m.isNegative) (a * m.natAbs) := by
  have hm : m.toRat = signed m.isNegative (m.natAbs : ℚ) := (Numeric.signed_natAbs m.value).symm
  rw [hm]
  cases negative <;> cases m.isNegative <;> simp [signed]

/-! ## Affixes -/

/-- The text that one part of an affix is written as. -/
inductive AffixPart.Writes (symbols : Symbols) : Option Currency → AffixPart → String → Prop
  | literal (currency text) : Writes symbols currency (.literal text) text
  | percent (currency) : Writes symbols currency .percent symbols.percentSign
  | perMille (currency) : Writes symbols currency .perMille symbols.perMille
  | minus (currency) : Writes symbols currency .minus symbols.minusSign
  | plus (currency) : Writes symbols currency .plus symbols.plusSign
  | symbol (c : Currency) : Writes symbols (some c) (.currency .symbol) c.symbol
  | isoCode (c : Currency) : Writes symbols (some c) (.currency .isoCode) c.code.text
  | noSymbol : Writes symbols none (.currency .symbol) "¤"
  | noIsoCode : Writes symbols none (.currency .isoCode) "XXX"

/-- The parts of an affix are written one after the other. -/
inductive Affix.Writes (symbols : Symbols) (currency : Option Currency) : Affix → String → Prop
  | nil : Writes symbols currency [] ""
  | cons {part affix front back} (hpart : part.Writes symbols currency front)
      (haffix : Writes symbols currency affix back) :
      Writes symbols currency (part :: affix) (front ++ back)

section
variable {symbols : Symbols} {currency : Option Currency}

theorem AffixPart.writes_iff {part : AffixPart} {text : String} :
    part.Writes symbols currency text ↔ text = part.text symbols currency := by
  refine ⟨fun h => ?_, fun h => ?_⟩
  · cases h <;> rfl
  · subst h
    cases part with
    | literal text => exact .literal currency text
    | percent => exact .percent currency
    | perMille => exact .perMille currency
    | minus => exact .minus currency
    | plus => exact .plus currency
    | currency display =>
      cases display with
      | symbol =>
        cases currency with
        | none => exact .noSymbol
        | some c => exact .symbol c
      | isoCode =>
        cases currency with
        | none => exact .noIsoCode
        | some c => exact .isoCode c

theorem Affix.text_cons (part : AffixPart) (affix : Affix) :
    Affix.text symbols currency (part :: affix) =
      part.text symbols currency ++ affix.text symbols currency := by
  rw [text, List.map_cons, String.join_cons, text]

theorem Affix.writes_iff {affix : Affix} {text : String} :
    affix.Writes symbols currency text ↔ text = affix.text symbols currency := by
  refine ⟨fun h => ?_, fun h => ?_⟩
  · induction h with
    | nil => rfl
    | cons hpart _ ih => rw [AffixPart.writes_iff.1 hpart, ih, text_cons]
  · subst h
    induction affix with
    | nil => exact .nil
    | cons part affix ih =>
      rw [text_cons]
      exact .cons (AffixPart.writes_iff.2 rfl) ih

end

namespace Formatter

variable (f : Formatter)

/-! ## Bodies -/

/-- Integer digits are written in groups with a separator between them, or in a row where grouping
is off or the pattern has no groups. -/
def WritesInteger (ds : List Digit) (text : String) : Prop :=
  if f.settings.groupingUsed ∧ f.pattern.groupingSize ≠ 0 then
    ∃ gs, IsGrouping f.pattern.groupingSize ds gs ∧
      text = String.intercalate f.symbols.group (gs.map Digits.text)
  else text = Digits.text ds

/-- The text of a magnitude without sign and affixes. -/
def WritesBody (r : ℚ) (text : String) : Prop :=
  ∃ (b : NumberBody) (integer : String), b.Shows f.settings.limits r ∧
    f.WritesInteger b.integer integer ∧
    text = integer ++
      if b.fraction = [] ∧ f.settings.separatorAlwaysShown = false then ""
      else f.symbols.decimal ++ Digits.text b.fraction

theorem writesInteger_iff {ds : List Digit} {text : String} :
    f.WritesInteger ds text ↔ text = groupedText f.groupingSize f.symbols.group ds := by
  unfold WritesInteger groupedText groupingSize
  by_cases hsize : f.pattern.groupingSize = 0
  · simp [hsize]
  · have hpos := Nat.pos_of_ne_zero hsize
    cases f.settings.groupingUsed <;> simp [hsize, isGrouping_iff hpos]

theorem writesBody_iff_shows {r : ℚ} {text : String} :
    f.WritesBody r text ↔ ∃ b : NumberBody, b.Shows f.settings.limits r ∧
      text = b.text f.groupingSize f.settings.separatorAlwaysShown f.symbols := by
  have htext (b : NumberBody) (integer : String) :
      (integer ++ if b.fraction = [] ∧ f.settings.separatorAlwaysShown = false then ""
        else f.symbols.decimal ++ Digits.text b.fraction) =
      if b.fraction.isEmpty && !f.settings.separatorAlwaysShown then integer
      else integer ++ f.symbols.decimal ++ Digits.text b.fraction := by
    by_cases h : b.fraction = [] ∧ f.settings.separatorAlwaysShown = false
    · rw [if_pos h, if_pos (by simp [h]), String.append_empty]
    · rw [if_neg h, if_neg (by simpa using h), String.append_assoc]
  unfold WritesBody
  simp only [writesInteger_iff, htext]
  exact ⟨fun ⟨b, _, hb, hi, ht⟩ => ⟨b, hb, by rw [ht, hi]; rfl⟩,
    fun ⟨b, hb, ht⟩ => ⟨b, _, hb, rfl, ht⟩⟩

theorem writesBody_iff {x : Decimal} (hx : x.Canonical) {text : String} :
    f.WritesBody x.toRat text ↔ text = f.bodyText x := by
  simp only [writesBody_iff_shows, NumberBody.shows_iff hx, exists_eq_left]
  rfl

/-! ## Signs -/

/-- What surrounds a number: the negative sub-pattern where it is negative and the pattern has one,
or the positive one. -/
def subPattern (r : ℚ) : SubPattern :=
  if r < 0 then f.pattern.negative.getD f.pattern.positive else f.pattern.positive

/-- The sign of a negative number, where the pattern does not say how to show it. -/
def signText (r : ℚ) : String :=
  if r < 0 ∧ f.pattern.negative = none then f.symbols.minusSign else ""

/-- The text of a number that needs no more rounding. -/
def Writes (r : ℚ) (text : String) : Prop :=
  ∃ front body back, (f.subPattern r).front.Writes f.symbols f.settings.currency front ∧
    f.WritesBody |r| body ∧ (f.subPattern r).back.Writes f.symbols f.settings.currency back ∧
    text = f.signText r ++ front ++ body ++ back

theorem surround_eq (r : ℚ) (body : String) :
    f.surround (decide (r < 0)) body =
      f.signText r ++ (f.subPattern r).front.text f.symbols f.settings.currency ++ body ++
        (f.subPattern r).back.text f.symbols f.settings.currency := by
  unfold surround Pattern.surround signText subPattern SubPattern.surround
  by_cases hr : r < 0
  · cases f.pattern.negative <;> simp [hr, String.append_assoc]
  · simp [hr]

theorem writes_iff_surround {r : ℚ} {text : String} :
    f.Writes r text ↔
      ∃ body, f.WritesBody |r| body ∧ text = f.surround (decide (r < 0)) body := by
  simp only [surround_eq, Writes, Affix.writes_iff, exists_and_left, exists_eq_left]

/-! ## Formatting -/

theorem writes_iff {x : Decimal} (hx : x.Canonical) {r : ℚ} (hr : |r| = x.toRat) {text : String} :
    f.Writes r text ↔ text = f.surround (decide (r < 0)) (f.bodyText x) := by
  rw [writes_iff_surround, hr]
  simp only [f.writesBody_iff hx, exists_eq_left]

/-- A finite quantity is multiplied, rounded and written, unless the mode refuses to round. -/
theorem formatQuantity_finite (negative : Bool) (magnitude : Decimal) {q : ℚ}
    (hq : q = signed negative magnitude.toRat * f.settings.multiplier.toRat) :
    match f.settings.roundingMode.select (q * 10 ^ f.settings.limits.maxFraction) with
    | none => f.formatQuantity (.finite negative magnitude) =
        .error (.roundingNecessary f.settings.limits.maxFraction)
    | some k => ∃ text, f.formatQuantity (.finite negative magnitude) = .ok text ∧
        ∀ t, f.Writes (k / 10 ^ f.settings.limits.maxFraction) t ↔ t = text := by
  rw [Multiplier.signed_mul, ← Decimal.toRat_mul] at hq
  have hround := Decimal.round_select (Decimal.canonical_mul magnitude f.settings.multiplier.natAbs)
    f.settings.limits.maxFraction f.settings.roundingMode
    (negative != f.settings.multiplier.isNegative)
  have hscale : q * 10 ^ f.settings.limits.maxFraction =
      signed (negative != f.settings.multiplier.isNegative)
        ((magnitude.mul f.settings.multiplier.natAbs).toRat *
          10 ^ f.settings.limits.maxFraction) := by
    rw [hq]
    unfold signed
    split <;> ring
  rw [hscale]
  unfold formatQuantity scaled
  dsimp only
  generalize (negative != f.settings.multiplier.isNegative) = sign at hround ⊢
  cases hsel : f.settings.roundingMode.select (signed sign
    ((magnitude.mul f.settings.multiplier.natAbs).toRat *
      10 ^ f.settings.limits.maxFraction)) with
  | none =>
    rw [hsel] at hround
    rw [show (magnitude.mul f.settings.multiplier.natAbs).round f.settings.limits.maxFraction
      f.settings.roundingMode sign = none from hround]
  | some k =>
    rw [hsel] at hround
    obtain ⟨z, n, hz, hcanon, hval, hk⟩ := hround
    rw [hz]
    have hten : (0 : ℚ) < 10 ^ f.settings.limits.maxFraction := by positivity
    have habs : |(k : ℚ) / 10 ^ f.settings.limits.maxFraction| = z.toRat := by
      rw [hval, abs_div, abs_of_pos hten, hk]
      cases sign <;> simp [signed]
    have hsign : decide ((k : ℚ) / 10 ^ f.settings.limits.maxFraction < 0) =
        (sign && !z.isZero) := by
      rw [Bool.eq_iff_iff, decide_eq_true_iff, div_neg_iff, Bool.and_eq_true, Bool.not_eq_true',
        ← Bool.not_eq_true, Decimal.isZero_iff hcanon, hval, div_eq_zero_iff]
      cases sign <;> simp [hk, signed, hten.ne', hten.not_gt, hten, Nat.pos_iff_ne_zero]
    exact ⟨_, rfl, fun t => by rw [f.writes_iff hcanon habs, hsign]⟩

/-! ## Rounded results -/

/-- A value times the multiplier, rounded to the greatest number of fraction digits, unless the mode
refuses to round. -/
def rounded? (x : ℚ) : Option ℚ :=
  (f.settings.roundingMode.select
    (x * f.settings.multiplier.toRat * 10 ^ f.settings.limits.maxFraction)).map
      fun k : ℤ => (k : ℚ) / 10 ^ f.settings.limits.maxFraction

/-- The text of the digits of a body, with the affixes for a sign. -/
def numberText (negative : Bool) (b : NumberBody) : String :=
  f.surround negative (b.text f.groupingSize f.settings.separatorAlwaysShown f.symbols)

theorem writes_iff_shows {r : ℚ} {text : String} :
    f.Writes r text ↔ ∃ b : NumberBody, b.Shows f.settings.limits |r| ∧
      text = f.numberText (decide (r < 0)) b := by
  simp only [writes_iff_surround, writesBody_iff_shows]
  exact ⟨fun ⟨_, ⟨b, hb, rfl⟩, ht⟩ => ⟨b, hb, ht⟩, fun ⟨b, hb, ht⟩ => ⟨_, ⟨b, hb, rfl⟩, ht⟩⟩

/-- The answer for a finite value, by its rounded product. -/
theorem format_of_value? {v : Numeric} {x : ℚ} (hx : v.value? = some x) :
    match f.rounded? x with
    | none => f.format v = .error (.roundingNecessary f.settings.limits.maxFraction)
    | some r => ∃ text, f.format v = .ok text ∧ ∀ t, f.Writes r t ↔ t = text := by
  obtain ⟨negative, magnitude, hquantity, hvalue⟩ :=
    Numeric.quantity_of_value? ((Numeric.value?_normalized v).trans hx)
  have hformat := f.formatQuantity_finite negative magnitude
    (congrArg (· * f.settings.multiplier.toRat) hvalue)
  rw [← hquantity] at hformat
  rw [rounded?]
  cases hsel : f.settings.roundingMode.select
    (x * f.settings.multiplier.toRat * 10 ^ f.settings.limits.maxFraction) with
  | none =>
    rw [hsel] at hformat
    exact hformat
  | some k =>
    rw [hsel] at hformat
    exact hformat

theorem exists_writesBody {v : Numeric} {x r : ℚ} (hx : v.value? = some x)
    (hr : f.rounded? x = some r) : ∃ body, f.WritesBody |r| body := by
  have hformat := f.format_of_value? hx
  rw [hr] at hformat
  obtain ⟨text, -, hwrites⟩ := hformat
  obtain ⟨body, hbody, -⟩ := f.writes_iff_surround.1 ((hwrites text).2 rfl)
  exact ⟨body, hbody⟩

/-- The body of the rounded product between the affixes for its sign. -/
theorem format_of_rounded? {v : Numeric} {x r : ℚ} (hx : v.value? = some x)
    (hr : f.rounded? x = some r) {body : String} (hbody : f.WritesBody |r| body) :
    f.format v = .ok (f.surround (decide (r < 0)) body) := by
  have hformat := f.format_of_value? hx
  rw [hr] at hformat
  obtain ⟨text, htext, hwrites⟩ := hformat
  rw [htext, (hwrites _).1 (f.writes_iff_surround.2 ⟨body, hbody, rfl⟩)]

theorem format_of_infinite {x : Binary64} (hfinite : x.isFinite = false)
    (hnan : x.isNaN = false) :
    f.format (.real x) =
      .ok (f.surround (x.negative != f.settings.multiplier.isNegative) f.symbols.infinity) := by
  rw [format, Numeric.normalized_of_not_finite hfinite, Numeric.quantity_of_infinite hfinite hnan]
  rfl

theorem format_eq_error_iff {v : Numeric} {x : ℚ} (hx : v.value? = some x) {e : FormatError} :
    f.format v = .error e ↔
      f.rounded? x = none ∧ e = .roundingNecessary f.settings.limits.maxFraction := by
  have hformat := f.format_of_value? hx
  cases hr : f.rounded? x with
  | none =>
    rw [hr] at hformat
    dsimp only at hformat
    rw [hformat]
    simp [eq_comm]
  | some r =>
    rw [hr] at hformat
    obtain ⟨text, htext, -⟩ := hformat
    rw [htext]
    simp

/-- The text of a finite value is that of digits which show its rounded result. -/
theorem format_eq_ok_iff {v : Numeric} {x : ℚ} (hx : v.value? = some x) {text : String} :
    f.format v = .ok text ↔ ∃ r, f.rounded? x = some r ∧
      ∃ b : NumberBody, b.Shows f.settings.limits |r| ∧ text = f.numberText (decide (r < 0)) b := by
  have hformat := f.format_of_value? hx
  simp only [← writes_iff_shows]
  cases hr : f.rounded? x with
  | none =>
    rw [hr] at hformat
    dsimp only at hformat
    rw [hformat]
    simp
  | some r =>
    rw [hr] at hformat
    obtain ⟨t, ht, hwrites⟩ := hformat
    rw [ht]
    simp [hwrites, eq_comm]

/-- **Formatting a finite value.** Let `q` be the value times the multiplier. Formatting fails
exactly if the mode never rounds and `q` has too many fraction digits. Otherwise it gives the one
text that is written for the multiple of the last fraction digit's unit that the mode selects. -/
theorem format_finite (f : Formatter) (v : Numeric) {x q : ℚ} (hx : v.value? = some x)
    (hq : q = x * f.settings.multiplier.toRat) :
    (f.format v = .error (.roundingNecessary f.settings.limits.maxFraction) ↔
      f.settings.roundingMode = .unnecessary ∧
        ¬∃ k : ℤ, q = k / 10 ^ f.settings.limits.maxFraction) ∧
    (¬(f.settings.roundingMode = .unnecessary ∧
        ¬∃ k : ℤ, q = k / 10 ^ f.settings.limits.maxFraction) →
      ∃ text, f.format v = .ok text) ∧
    ∀ text, f.format v = .ok text ↔
      ∃ k, f.settings.roundingMode.select (q * 10 ^ f.settings.limits.maxFraction) = some k ∧
        f.Writes (k / 10 ^ f.settings.limits.maxFraction) text := by
  have hten : (10 : ℚ) ^ f.settings.limits.maxFraction ≠ 0 := by positivity
  have hmultiple : (∃ k : ℤ, q = k / 10 ^ f.settings.limits.maxFraction) ↔
      ∃ k : ℤ, q * 10 ^ f.settings.limits.maxFraction = k := by
    simp only [eq_div_iff hten]
  obtain ⟨negative, magnitude, hquantity, hvalue⟩ :=
    Numeric.quantity_of_value? ((Numeric.value?_normalized v).trans hx)
  have hformat := f.formatQuantity_finite negative magnitude (hvalue ▸ hq)
  rw [← hquantity] at hformat
  change match f.settings.roundingMode.select _ with
    | none => f.format v = _
    | some k => ∃ text, f.format v = .ok text ∧ _ at hformat
  rw [hmultiple, ← select_eq_none_iff]
  cases hsel : f.settings.roundingMode.select (q * 10 ^ f.settings.limits.maxFraction) with
  | none =>
    rw [hsel] at hformat
    dsimp only at hformat
    rw [hformat]
    simp
  | some k =>
    rw [hsel] at hformat
    obtain ⟨t, ht, hwrites⟩ := hformat
    rw [ht]
    simp [hwrites, eq_comm]

/-- Amounts with two places, negative ones in brackets. -/
def bracketed : Formatter where
  family := .number
  locale := .root
  pattern :=
    { groupingSize := 3
      limits := { minFraction := 2, maxFraction := 2 }
      negative := some { front := [.literal "("], back := [.literal ")"] } }
  symbols := {}
  settings := { limits := { minFraction := 2, maxFraction := 2 } }

/-- The floating-point number whose shortest decimal is -1234.565. -/
def halfway : Numeric := .real (.ofBits 0xC0934A428F5C28F6)

/-- Amounts with every placeholder around them. -/
def labelled (currency : Option Currency) : Formatter where
  family := .currency
  locale := .root
  pattern :=
    { groupingSize := 3
      limits := { minFraction := 2, maxFraction := 2 }
      positive :=
        { front := [.currency .isoCode, .literal " "]
          back := [.percent, .perMille, .minus, .plus, .literal " ", .currency .symbol] } }
  symbols := {}
  settings := { currency, limits := { minFraction := 2, maxFraction := 2 } }

/-- From the middle to the even neighbour, in brackets, and after a sign between placeholders with
and without a currency. -/
theorem format_finite_halfway :
    halfway.value? = some (-1234.565) ∧
      (∃ k, RoundingMode.halfEven.select
          (-1234.565 * bracketed.settings.multiplier.toRat * 10 ^ 2) = some k ∧
        bracketed.Writes (k / 10 ^ 2) "(1,234.56)") ∧
      (∃ k, RoundingMode.halfEven.select
          (-1234.565 * (labelled none).settings.multiplier.toRat * 10 ^ 2) = some k ∧
        (labelled none).Writes (k / 10 ^ 2) "-XXX 1,234.56%‰-+ ¤") ∧
      ∃ euro, euro = some ⟨.ofText "EUR", "€"⟩ ∧
        ∃ k, RoundingMode.halfEven.select
            (-1234.565 * (labelled euro).settings.multiplier.toRat * 10 ^ 2) = some k ∧
          (labelled euro).Writes (k / 10 ^ 2) "-EUR 1,234.56%‰-+ €" := by
  have hx : halfway.value? = some (-1234.565) := by decide +kernel
  have hbracketed : bracketed.format halfway = .ok "(1,234.56)" := by decide +kernel
  have hnone : (labelled none).format halfway = .ok "-XXX 1,234.56%‰-+ ¤" := by decide +kernel
  have heuro : (labelled (some ⟨.ofText "EUR", "€"⟩)).format halfway =
      .ok "-EUR 1,234.56%‰-+ €" := by
    decide +kernel
  exact ⟨hx, ((format_finite bracketed halfway hx rfl).2.2 _).1 hbracketed,
    ((format_finite (labelled none) halfway hx rfl).2.2 _).1 hnone, _, rfl,
    ((format_finite (labelled _) halfway hx rfl).2.2 _).1 heuro⟩

end Formatter

end Numerals
