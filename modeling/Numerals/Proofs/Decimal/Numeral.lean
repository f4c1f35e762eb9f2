import Numerals.Proofs.Decimal.InPlace

/-!
# Numerals

A numeral is a text of digits that may have a point among them and zeros at either end. Reading it
leaves out those zeros (`Decimal.ofText?`), so that all numerals of one number are read as its
canonical form (`Decimal.ofText?_eq_some_iff`). A natural number is read from its text
(`Decimal.ofText?_repr`).

`Decimal.read_exact` puts this together, with the digits that are taken from any magnitude in
canonical form: they denote its value, wherever its point is, and are read as the magnitude again.
-/

namespace Numerals

namespace Digits

/-! ## Characters of digits -/

def char (d : Digit) : Char := Char.ofNat ('0'.toNat + d.val)

theorem toList_text (ds : List Digit) : (text ds).toList = ds.map char :=
  String.toList_ofList

theorem char_injective : Function.Injective char := by decide

theorem isDigit_char (d : Digit) : (char d).isDigit = true := by
  revert d
  decide

theorem isDigit_of_mem_map (ds : List Digit) : ∀ c ∈ ds.map char, c.isDigit = true := by
  simp [isDigit_char]

/-- The digit that a character stands for. -/
def ofChar? (c : Char) : Option Digit :=
  if c.isDigit then some (Fin.ofNat 10 (c.toNat - '0'.toNat)) else none

theorem ofChar?_char (d : Digit) : ofChar? (char d) = some d := by
  revert d
  decide

theorem mapM_ofChar?_text (ds : List Digit) : (text ds).toList.mapM ofChar? = some ds := by
  rw [toList_text]
  induction ds with
  | nil => rfl
  | cons d ds ih =>
    rw [List.map_cons, List.mapM_cons, ofChar?_char, ih]
    rfl

theorem ne_point_of_mem_text (ds : List Digit) :
    ∀ c ∈ (text ds).toList, decide (c ≠ '.') = true := by
  rw [toList_text]
  intro c hc
  have hdigit := isDigit_of_mem_map ds c hc
  refine decide_eq_true fun hpoint => ?_
  subst hpoint
  cases hdigit

theorem exists_toDigits_eq (n : ℕ) : ∃ ds, Nat.toDigits 10 n = ds.map char ∧ toNat ds = n := by
  have hchar : ∀ d : Digit, Nat.digitChar d.val = char d := by decide
  induction n using Nat.strongRecOn with
  | ind n ih =>
    rw [Nat.toDigits_eq_if (by decide)]
    split
    · next h => exact ⟨[⟨n, h⟩], by simp [← hchar], by simp [toNat]⟩
    · next h =>
      obtain ⟨ds, hds, hval⟩ := ih (n / 10) (by omega)
      refine ⟨ds ++ [Fin.ofNat 10 n], by simp [hds, ← hchar], ?_⟩
      rw [toNat_concat, hval]
      exact Nat.div_add_mod n 10

/-! ## Zeros at the ends -/

theorem fraction_trimEnd (ds : List Digit) :
    (toNat (Decimal.trimEnd ds) : ℚ) / 10 ^ (Decimal.trimEnd ds).length =
      toNat ds / 10 ^ ds.length := by
  obtain ⟨n, hn⟩ := Decimal.exists_trimEnd ds
  conv_rhs => rw [hn]
  rw [toNat_append, toNat_replicate_zero, List.length_append, List.length_replicate, pow_add]
  push_cast
  rw [add_zero, mul_div_mul_right _ _ (by positivity)]

theorem integer_inj {as bs : List Digit} (h : toNat as = toNat bs) (has : as.head? ≠ some 0)
    (hbs : bs.head? ≠ some 0) : as = bs := by
  apply toNat_inj _ h
  rw [← length_digits_toNat has, h, length_digits_toNat hbs]

end Digits

open Digits

/-! ## Numerals and what is read of them -/

/-- Digits before the point, and digits after it if there is a point. -/
structure Numeral where
  integer : List Digit
  fraction : Option (List Digit) := none

namespace Numeral

def fractionDigits (n : Numeral) : List Digit := n.fraction.getD []

def text (n : Numeral) : String :=
  Digits.text n.integer ++ n.fraction.elim "" fun ds => "." ++ Digits.text ds

/-- The number that a numeral denotes. -/
def toRat (n : Numeral) : ℚ :=
  toNat n.integer + toNat n.fractionDigits / 10 ^ n.fractionDigits.length

theorem toList_text (n : Numeral) :
    n.text.toList = (Digits.text n.integer).toList ++
      n.fraction.elim [] fun ds => '.' :: (Digits.text ds).toList := by
  obtain ⟨integer, fraction⟩ := n
  cases fraction <;> simp [text]

theorem takeWhile_text (n : Numeral) :
    n.text.toList.takeWhile (· ≠ '.') = (Digits.text n.integer).toList := by
  rw [toList_text, List.takeWhile_append_of_pos (ne_point_of_mem_text _)]
  cases n.fraction <;> simp

theorem drop_dropWhile_text (n : Numeral) :
    (n.text.toList.dropWhile (· ≠ '.')).drop 1 = (Digits.text n.fractionDigits).toList := by
  rw [toList_text, List.dropWhile_append_of_pos (ne_point_of_mem_text _), fractionDigits]
  cases n.fraction with
  | none => rfl
  | some ds => simp

end Numeral

namespace Decimal

/-- Reads the digits around the first point of a text, where a missing point stands at the end, and
leaves out the zeros at the start before those at the end. `none` stands for a character that is no
digit. -/
def ofText? (text : String) : Option Decimal := do
  let cs := text.toList
  let integer ← (cs.takeWhile (· ≠ '.')).mapM ofChar?
  let fraction ← ((cs.dropWhile (· ≠ '.')).drop 1).mapM ofChar?
  let ds := integer ++ fraction
  let zeros := (ds.takeWhile (· = 0)).length
  return ofSignificant (ds.drop zeros) (integer.length - zeros)

/-- The integer digits as they are written: none unless the point is behind a digit, and zeros up to
the point. -/
def readInteger (x : Decimal) : List Digit :=
  if x.point ≤ 0 then []
  else x.digits.take x.point.toNat ++ List.replicate (x.point.toNat - x.digits.length) 0

/-- The fraction digits as they are written: none if the point is behind all digits, and zeros from
the point on. `none` stands for an index or a word out of range. -/
def readFraction (x : Decimal) : Option (List Digit) :=
  if x.digits.length ≤ x.point then some []
  else do
    let zeros ← word? (-x.point)
    let rest ← slice? x.digits (max x.point 0).toNat
    return List.replicate (max zeros 0).toNat 0 ++ rest

/-- The digits of a magnitude around its point. -/
def numeral (x : Decimal) : Numeral := ⟨x.integerDigits, some x.fractionDigits⟩

/-! ## Reading a numeral -/

/-- To leave out the zeros where they stand makes canonical form. -/
theorem ofSignificant_drop (ds : List Digit) (point : Int) :
    ofSignificant (ds.drop (ds.takeWhile (· = 0)).length)
        (point - (ds.takeWhile (· = 0)).length) = ofDigits ds point := by
  have hsplit := List.takeWhile_append_dropWhile (p := (· = (0 : Digit))) (l := ds)
  have hhead := head?_dropWhile ds
  have hval := toNat_dropWhile ds
  generalize ds.takeWhile (· = 0) = zeros at *
  generalize ds.dropWhile (· = 0) = significant at *
  subst hsplit
  have hexp : point - zeros.length - significant.length =
      point - (zeros ++ significant).length := by
    rw [List.length_append]
    omega
  rw [List.drop_left, ofSignificant_eq hhead, hval, hexp, ofDigits_eq_ofScaled]

theorem ofText?_text (n : Numeral) :
    ofText? n.text = some (ofNumeral n.integer n.fractionDigits) := by
  rw [ofText?, n.takeWhile_text, n.drop_dropWhile_text, mapM_ofChar?_text, Option.bind_eq_bind,
    Option.bind_some, mapM_ofChar?_text]
  exact congrArg some (ofSignificant_drop _ _)

theorem toRat_ofNumeral (integer fraction : List Digit) :
    (ofNumeral integer fraction).toRat = toNat integer + toNat fraction / 10 ^ fraction.length := by
  have hexp : (integer.length : ℤ) - (integer ++ fraction).length = -(fraction.length : ℤ) := by
    rw [List.length_append]
    omega
  rw [ofNumeral, toRat_ofDigits, hexp, toNat_append, zpow_neg, zpow_natCast]
  push_cast
  field_simp

theorem canonical_ofNumeral (integer fraction : List Digit) :
    (ofNumeral integer fraction).Canonical := canonical_ofDigits _ _

/-- A numeral is read as its number, in the one form that the number has. -/
theorem ofText?_eq_some_iff {n : Numeral} {x : Decimal} :
    ofText? n.text = some x ↔ x.Canonical ∧ x.toRat = n.toRat := by
  have hval : (ofNumeral n.integer n.fractionDigits).toRat = n.toRat := toRat_ofNumeral _ _
  rw [ofText?_text, Option.some.injEq]
  constructor
  · rintro rfl
    exact ⟨canonical_ofNumeral _ _, hval⟩
  · rintro ⟨hx, h⟩
    exact (canonical_ofNumeral _ _).eq_of_toRat_eq hx (hval.trans h.symm)

/-- A natural number is read from its text. -/
theorem ofText?_repr (n : ℕ) : ofText? n.repr = some (ofNat n) := by
  obtain ⟨ds, hds, hval⟩ := exists_toDigits_eq n
  have htext : n.repr = Numeral.text ⟨ds, none⟩ := by
    rw [Nat.repr_eq_ofList_toDigits, hds]
    simp [Numeral.text, String.ext_iff, Digits.toList_text]
  rw [htext, ofText?_eq_some_iff]
  refine ⟨canonical_ofScaled n 0, ?_⟩
  rw [toRat_ofNat, Numeral.toRat, hval]
  simp [Numeral.fractionDigits]

/-! ## The digits around the point -/

theorem integerDigits_ofNumeral (integer fraction : List Digit) :
    (ofNumeral integer fraction).integerDigits = integer.dropWhile (· = 0) := by
  apply integer_inj _ (head?_integerDigits (canonical_ofNumeral _ _)) (head?_dropWhile _)
  rw [toNat_integerDigits, toNat_dropWhile]
  exact (floor_fract_of_digits (toRat_ofNumeral integer fraction)).1

theorem fractionDigits_ofNumeral (integer fraction : List Digit) :
    (ofNumeral integer fraction).fractionDigits = trimEnd fraction := by
  apply fraction_inj _ (getLast?_fractionDigits (canonical_ofNumeral _ _)) (getLast?_trimEnd _)
  rw [toNat_fractionDigits, fraction_trimEnd]
  exact (floor_fract_of_digits (toRat_ofNumeral integer fraction)).2

theorem readInteger_eq (x : Decimal) : x.readInteger = x.integerDigits := by
  rw [readInteger, integerDigits]
  split
  · next h => rw [Int.toNat_of_nonpos h, List.take_zero, Nat.zero_sub, List.replicate_zero]; rfl
  · rfl

theorem readFraction_eq {x : Decimal} (hpoint : x.point.natAbs < 2 ^ 63) :
    x.readFraction = some x.fractionDigits := by
  rw [readFraction, fractionDigits]
  split
  · next h =>
    rw [Int.toNat_of_nonpos (by omega), List.drop_of_length_le (by omega)]
    rfl
  · have hzeros : (max (-x.point) 0).toNat = (-x.point).toNat := by omega
    have hstart : (max x.point 0).toNat = x.point.toNat := by omega
    rw [word?_of_lt (by omega), slice?, if_pos (by omega), ← hzeros, hstart]
    rfl

theorem Canonical.ofText?_numeral {x : Decimal} (hx : x.Canonical) :
    ofText? x.numeral.text = some x :=
  ofText?_eq_some_iff.2 ⟨hx, toRat_eq_digits x⟩

/-- **Numerals are read exactly.** A numeral is read as its number in canonical form, zero without
digits, and the digits around the point are its own without the zeros at the start of the one part
and at the end of the other. Two numerals are read alike if and only if they denote the same number.
The digits around the point of any magnitude in canonical form denote its value, with no zero at the
start of the one part or at the end of the other, and are read as the magnitude again. They are
written as they are, unless the zeros are more than a word counts. -/
theorem read_exact :
    (∀ n : Numeral, ∃ x, ofText? n.text = some x ∧ x.Canonical ∧ x.toRat = n.toRat ∧
        (n.toRat = 0 → x = zero) ∧ x.integerDigits = n.integer.dropWhile (· = 0) ∧
        x.fractionDigits = trimEnd n.fractionDigits) ∧
      (∀ m n : Numeral, ofText? m.text = ofText? n.text ↔ m.toRat = n.toRat) ∧
      ∀ x : Decimal, x.Canonical →
        x.toRat = toNat x.integerDigits + toNat x.fractionDigits / 10 ^ x.fractionDigits.length ∧
        x.integerDigits.head? ≠ some 0 ∧ x.fractionDigits.getLast? ≠ some 0 ∧
        ofText? x.numeral.text = some x ∧ x.readInteger = x.integerDigits ∧
        (x.point.natAbs < 2 ^ 63 → x.readFraction = some x.fractionDigits) := by
  refine ⟨fun n => ?_, fun m n => ?_, fun x hx => ?_⟩
  · obtain ⟨hx, hval⟩ := ofText?_eq_some_iff.1 (ofText?_text n)
    refine ⟨_, ofText?_text n, hx, hval, fun hzero => ?_, integerDigits_ofNumeral _ _,
      fractionDigits_ofNumeral _ _⟩
    exact hx.eq_of_toRat_eq canonical_zero (by rw [hval, hzero, toRat_zero])
  · obtain ⟨hx, hval⟩ := ofText?_eq_some_iff.1 (ofText?_text n)
    rw [ofText?_text n, ofText?_eq_some_iff, hval]
    exact ⟨fun h => h.2.symm, fun h => ⟨hx, h.symm⟩⟩
  · exact ⟨toRat_eq_digits x, head?_integerDigits hx, getLast?_fractionDigits hx,
      hx.ofText?_numeral, readInteger_eq x, readFraction_eq⟩

/-- Zeros at both ends, and a point far to the left of the digits. -/
theorem read_exact_zeros :
    (∃ x, ofText? "00120.0450" = some x ∧ x.integerDigits = [1, 2, 0] ∧
        x.fractionDigits = [0, 4, 5] ∧ ofText? "120.045" = some x) ∧
      ofText? "0.00" = some zero ∧ (⟨[1, 2], -2⟩ : Decimal).Canonical ∧
      (⟨[1, 2], -2⟩ : Decimal).readFraction = some [0, 0, 1, 2] := by
  have hx : (⟨[1, 2], -2⟩ : Decimal).Canonical := ⟨by decide, by decide, by simp⟩
  obtain ⟨hread, hsame, hdigits⟩ := read_exact
  refine ⟨?_, ?_, hx, (hdigits _ hx).2.2.2.2.2 (by decide)⟩
  · obtain ⟨x, htext, -, -, -, hint, hfrac⟩ := hread ⟨[0, 0, 1, 2, 0], some [0, 4, 5, 0]⟩
    have hother := hsame ⟨[1, 2, 0], some [0, 4, 5]⟩ ⟨[0, 0, 1, 2, 0], some [0, 4, 5, 0]⟩
    exact ⟨x, htext, hint, hfrac, (hother.2 (by decide +kernel)).trans htext⟩
  · obtain ⟨x, htext, -, -, hzero, -⟩ := hread ⟨[0], some [0, 0]⟩
    exact htext.trans (congrArg some (hzero (by decide +kernel)))

end Decimal

end Numerals
