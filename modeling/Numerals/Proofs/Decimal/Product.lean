import Mathlib.Data.List.DropRight
import Numerals.Proofs.Decimal.InPlace

/-!
# Products in place

Digits can be multiplied by a word where they stand: from the last to the first, with a carry of 128
bits, which is written out in the end (`Decimal.mulInPlace`). One step keeps the carry within the
factor (`mulStep_eq`), so a whole run never carries more than a word holds (`mulLoop_eq`), and the
result is the product as long as a word holds its position (`Decimal.mulInPlace_eq`).
`Decimal.mul_exact` puts this together with the value of the product.
-/

namespace Numerals

/-- A number, if a word of 128 bits holds it. -/
def wide? (n : Nat) : Option Nat := if n < 2 ^ 128 then some n else none

theorem word?_eq (n : Int) : word? n = none ∨ word? n = some n := by
  unfold word?
  split
  · exact .inr rfl
  · exact .inl rfl

/-- Above a position that is out of range all are, if one below it is not. -/
theorem word?_eq_none_of_le {k m n : Int} (hk : word? k = some k) (hkm : k ≤ m) (hmn : m ≤ n)
    (hm : word? m = none) : word? n = none := by
  unfold word? lastPosition at *
  split at hk
  · split at hm
    · cases hm
    · rw [if_neg (by omega)]
  · cases hk

theorem wide?_of_lt {n : Nat} (h : n < 2 ^ 128) : wide? n = some n := if_pos h

namespace Digits

theorem ofNat_eq_nil_iff {n : Nat} : ofNat n = [] ↔ n = 0 := by
  constructor
  · intro h
    rw [← toNat_ofNat n, h, toNat_nil]
  · rintro rfl
    exact ofNat_zero

theorem head?_ofNat (n : Nat) : (ofNat n).head? ≠ some 0 := by
  fun_induction ofNat n with
  | case1 => simp
  | case2 n hn ih =>
    rw [List.head?_append]
    by_cases hlast : n / 10 = 0
    · have hval : n % 10 ≠ 0 := by omega
      rw [hlast, ofNat_zero]
      simpa [Fin.ext_iff] using hval
    · obtain ⟨d, ds, hds⟩ := List.exists_cons_of_ne_nil (mt ofNat_eq_nil_iff.1 hlast)
      rw [hds] at ih ⊢
      exact ih

end Digits

namespace Decimal

open Digits

/-! ## Multiplying in place -/

/-- The digits as bytes. -/
def bytes (x : Decimal) : List Nat := x.digits.map Fin.val

/-- Multiplies one more digit, where `made` is the carry so far and the digits made so far. `none`
stands for a number out of range. -/
def mulStep (factor : Nat) (made : Nat × List Nat) (d : Nat) : Option (Nat × List Nat) := do
  let scaled ← wide? (d * factor)
  let n ← wide? (scaled + made.1)
  return (n / 10, n % 10 :: made.2)

/-- Multiplies digits, the last of them first. -/
def mulLoop (factor : Nat) (ds : List Nat) : Option (Nat × List Nat) :=
  ds.reverse.foldlM (mulStep factor) (0, [])

/-- Writes a carry out in front of the digits. -/
def flush (carry : Nat) (product : List Nat) : List Nat :=
  if carry = 0 then product else flush (carry / 10) (carry % 10 :: product)

/-- Multiplication in place of digits and the position of their point. `none` stands for a carry or
a position out of range. -/
def mulInPlace (factor : Nat) (ds : List Nat) (point : Int) : Option (List Nat × Int) :=
  if ds = [] ∨ factor = 1 then some (ds, point)
  else do
    let (carry, product) ← mulLoop factor ds
    let product := flush carry product
    let point ← word? (point + (product.length - ds.length))
    let significant := product.rdropWhile (· = 0)
    return (significant, if significant = [] then 0 else point)

/-! ## One step and the whole run -/

section
variable {factor : Nat} (hfactor : factor < 2 ^ 64)
include hfactor

/-- A step keeps the carry within the factor. -/
theorem mulStep_eq {carry : Nat} (hcarry : carry ≤ factor) (d : Digit) (product : List Nat) :
    mulStep factor (carry, product) d.val =
        some ((d.val * factor + carry) / 10, (d.val * factor + carry) % 10 :: product) ∧
      (d.val * factor + carry) / 10 ≤ factor := by
  have hd : d.val * factor ≤ 9 * factor := Nat.mul_le_mul_right factor (by omega)
  have hscaled : wide? (d.val * factor) = some (d.val * factor) := wide?_of_lt (by omega)
  have hsum : wide? (d.val * factor + carry) = some (d.val * factor + carry) :=
    wide?_of_lt (by omega)
  refine ⟨?_, by omega⟩
  rw [mulStep, hscaled]
  change (do let n ← wide? (d.val * factor + carry); return (n / 10, n % 10 :: product)) = _
  rw [hsum]
  rfl

/-- A run makes the digits of the product and what is carried beyond them. -/
theorem mulLoop_eq (ds : List Digit) :
    mulLoop factor (ds.map Fin.val) =
        some ((mulDigits factor ds).1, (mulDigits factor ds).2.map Fin.val) ∧
      (mulDigits factor ds).1 ≤ factor := by
  induction ds with
  | nil => exact ⟨rfl, Nat.zero_le _⟩
  | cons d ds ih =>
    obtain ⟨hrun, hcarry⟩ := ih
    obtain ⟨hstep, hnext⟩ :=
      mulStep_eq hfactor hcarry d ((mulDigits factor ds).2.map Fin.val)
    refine ⟨?_, hnext⟩
    rw [mulLoop] at hrun ⊢
    rw [List.map_cons, List.reverse_cons, List.foldlM_append, hrun, Option.bind_eq_bind,
      Option.bind_some, List.foldlM_cons, hstep]
    rfl

end

theorem flush_eq (carry : Nat) (product : List Nat) :
    flush carry product = (Digits.ofNat carry).map Fin.val ++ product := by
  fun_induction flush carry product with
  | case1 product => rw [Digits.ofNat_zero]; rfl
  | case2 carry product hcarry ih =>
    rw [ih, Digits.ofNat.eq_def carry, if_neg hcarry]
    simp [Fin.ofNat]

/-! ## The digits of a product -/

/-- The digits of a product before they are trimmed. -/
def productDigits (factor : Nat) (ds : List Digit) : List Digit :=
  Digits.ofNat (mulDigits factor ds).1 ++ (mulDigits factor ds).2

theorem mul_eq_ofDigits (x : Decimal) (factor : Nat) :
    x.mul factor = ofDigits (productDigits factor x.digits)
      (x.point + ((productDigits factor x.digits).length - x.digits.length)) := by
  have hlen : ((productDigits factor x.digits).length : Int) - x.digits.length =
      (Digits.ofNat (mulDigits factor x.digits).1).length := by
    rw [productDigits, List.length_append, (mulDigits_spec factor x.digits).1]
    omega
  rw [hlen]
  rfl

theorem flush_mulDigits (factor : Nat) (ds : List Digit) :
    flush (mulDigits factor ds).1 ((mulDigits factor ds).2.map Fin.val) =
      (productDigits factor ds).map Fin.val := by
  rw [flush_eq, ← List.map_append, productDigits]

theorem toNat_productDigits (factor : Nat) (ds : List Digit) :
    toNat (productDigits factor ds) = toNat ds * factor := by
  obtain ⟨hlen, hval⟩ := mulDigits_spec factor ds
  rw [productDigits, toNat_append, toNat_ofNat, hlen, hval]

/-- Without a carry the product has as many digits as before, and needs them all. -/
theorem head?_productDigits {factor : Nat} (hpos : 0 < factor) {ds : List Digit}
    (h : ds.head? ≠ some 0) : (productDigits factor ds).head? ≠ some 0 := by
  by_cases hcarry : Digits.ofNat (mulDigits factor ds).1 = []
  · have hlen : (productDigits factor ds).length = ds.length := by
      rw [productDigits, hcarry, List.nil_append, (mulDigits_spec factor ds).1]
    cases ds with
    | nil => simp [List.eq_nil_of_length_eq_zero hlen]
    | cons d ds =>
      have hle : 10 ^ ds.length ≤ toNat (d :: ds) := le_toNat (by simpa using h)
      apply head?_ne_zero
      rw [hlen, toNat_productDigits, List.length_cons, Nat.add_sub_cancel]
      exact Nat.le_trans hle (Nat.le_mul_of_pos_right _ hpos)
  · obtain ⟨d, es, hes⟩ := List.exists_cons_of_ne_nil hcarry
    have hhead := head?_ofNat (mulDigits factor ds).1
    rw [productDigits, hes]
    rwa [hes] at hhead

theorem ofDigits_eq_of_head? {ds : List Digit} (hhead : ds.head? ≠ some 0) (hval : toNat ds ≠ 0)
    (point : Int) : trimEnd ds ≠ [] ∧ ofDigits ds point = ⟨trimEnd ds, point⟩ := by
  have hne : trimEnd ds ≠ [] := by
    intro hnil
    obtain ⟨n, hn⟩ := exists_trimEnd ds
    rw [hnil, List.nil_append] at hn
    rw [hn, toNat_replicate_zero] at hval
    exact hval rfl
  refine ⟨hne, ?_⟩
  rw [ofDigits_eq_ofScaled, ← ofSignificant_eq hhead, ofSignificant, if_neg hne]

theorem rdropWhile_bytes (ds : List Digit) :
    (ds.map Fin.val).rdropWhile (· = 0) = (trimEnd ds).map Fin.val := by
  have hzero : ((fun n : Nat => decide (n = 0)) ∘ Fin.val) = fun d : Digit => decide (d = 0) := by
    funext d
    exact decide_eq_decide.2 Fin.val_eq_zero_iff
  rw [List.rdropWhile, trimEnd, ← List.map_reverse, List.dropWhile_map, hzero, List.map_reverse]

/-! ## In place -/

theorem Canonical.mul_eq_self {x : Decimal} (hx : x.Canonical) {factor : Nat}
    (h : x.digits = [] ∨ factor = 1) : x.mul factor = x := by
  apply (canonical_mul x factor).eq_of_toRat_eq hx
  rw [toRat_mul]
  rcases h with h | rfl
  · rw [(isZero_iff hx).1 (List.isEmpty_iff.2 h), zero_mul]
  · rw [Nat.cast_one, mul_one]

/-- Multiplication in place gives the product, unless its position is out of range. -/
theorem mulInPlace_eq {x : Decimal} (hx : x.Canonical) (hpoint : word? x.point = some x.point)
    {factor : Nat} (hpos : 0 < factor) (hfactor : factor < 2 ^ 64) :
    mulInPlace factor x.bytes x.point =
      (word? (x.mul factor).point).map fun point => ((x.mul factor).bytes, point) := by
  have hbytes : x.bytes = [] ↔ x.digits = [] := List.map_eq_nil_iff
  rw [mulInPlace]
  by_cases hsame : x.bytes = [] ∨ factor = 1
  · rw [if_pos hsame, hx.mul_eq_self (hsame.imp_left hbytes.1), hpoint]
    rfl
  · have hval : toNat (productDigits factor x.digits) ≠ 0 := by
      rw [toNat_productDigits]
      have hdigits := toNat_ne_zero (fun hnil => hsame (.inl (hbytes.2 hnil))) hx.last
      exact Nat.mul_ne_zero hdigits hpos.ne'
    obtain ⟨hne, hmul⟩ := ofDigits_eq_of_head? (head?_productDigits hpos hx.head) hval
      (x.point + ((productDigits factor x.digits).length - x.digits.length))
    rw [if_neg hsame, mul_eq_ofDigits, hmul, bytes, (mulLoop_eq hfactor x.digits).1,
      Option.bind_eq_bind, Option.bind_some]
    simp only [flush_mulDigits, rdropWhile_bytes, List.length_map, List.map_eq_nil_iff, if_neg hne]
    cases word? (x.point + ((productDigits factor x.digits).length - x.digits.length)) <;> rfl

theorem Canonical.point_le_mul {x : Decimal} (hx : x.Canonical) {factor : Nat} (hpos : 0 < factor) :
    x.point ≤ (x.mul factor).point := by
  by_cases hnil : x.digits = []
  · rw [hx.mul_eq_self (.inl hnil)]
  · apply hx.point_le hnil
    rw [toRat_mul]
    exact le_mul_of_one_le_right x.toRat_nonneg (by exact_mod_cast hpos)

theorem mul_mul (x : Decimal) (f g : Nat) : (x.mul f).mul g = x.mul (f * g) := by
  apply (canonical_mul _ g).eq_of_toRat_eq (canonical_mul x _)
  rw [toRat_mul, toRat_mul, toRat_mul, Nat.cast_mul, mul_assoc]

/-- In place, too, two factors make their product: where the position is out of range after the
first, it is after the second as well. -/
theorem mulInPlace_mulInPlace {x : Decimal} (hx : x.Canonical)
    (hpoint : word? x.point = some x.point) {f g : Nat} (hf : 0 < f) (hg : 0 < g)
    (hfg : f * g < 2 ^ 64) :
    ((mulInPlace f x.bytes x.point).bind fun made => mulInPlace g made.1 made.2) =
      mulInPlace (f * g) x.bytes x.point := by
  have hf' : f < 2 ^ 64 := Nat.lt_of_le_of_lt (Nat.le_mul_of_pos_right f hg) hfg
  have hg' : g < 2 ^ 64 := Nat.lt_of_le_of_lt (Nat.le_mul_of_pos_left g hf) hfg
  have hfirst := hx.point_le_mul hf
  have hsecond := (canonical_mul x f).point_le_mul hg
  rw [mulInPlace_eq hx hpoint hf hf', mulInPlace_eq hx hpoint (Nat.mul_pos hf hg) hfg, ← mul_mul]
  rcases word?_eq (x.mul f).point with hnone | hsome
  · rw [hnone, word?_eq_none_of_le hpoint hfirst hsecond hnone]
    rfl
  · rw [hsome]
    exact mulInPlace_eq (canonical_mul x f) hsome hg hg'

/-- **Products are exact.** Multiplied by a word, a magnitude has the product as its value and is in
canonical form again. Done in place, the carry stays within the factor, so that it is never out of
range, and nothing else is but the position of the product. Two factors one after the other make
what their product makes at once. -/
theorem mul_exact {x : Decimal} (hx : x.Canonical) {factor : Nat} (hpos : 0 < factor)
    (hfactor : factor < 2 ^ 64) :
    (x.mul factor).toRat = x.toRat * factor ∧ (x.mul factor).Canonical ∧
      (∃ carry product, mulLoop factor x.bytes = some (carry, product) ∧ carry ≤ factor) ∧
      (word? x.point = some x.point → mulInPlace factor x.bytes x.point =
        (word? (x.mul factor).point).map fun point => ((x.mul factor).bytes, point)) ∧
      ∀ g, 0 < g → factor * g < 2 ^ 64 →
        (x.mul factor).mul g = x.mul (factor * g) ∧
        (word? x.point = some x.point →
          ((mulInPlace factor x.bytes x.point).bind fun made => mulInPlace g made.1 made.2) =
            mulInPlace (factor * g) x.bytes x.point) := by
  obtain ⟨hrun, hcarry⟩ := mulLoop_eq hfactor x.digits
  exact ⟨toRat_mul x factor, canonical_mul x factor, ⟨_, _, hrun, hcarry⟩,
    fun hpoint => mulInPlace_eq hx hpoint hpos hfactor,
    fun g hg hfg => ⟨mul_mul x factor g,
      fun hpoint => mulInPlace_mulInPlace hx hpoint hpos hg hfg⟩⟩

/-- A quarter times two factors that make digits in front and zeros at the end. -/
theorem mul_exact_quarter :
    (⟨[2, 5], 0⟩ : Decimal).Canonical ∧ word? 0 = some 0 ∧ 0 < 4000000000 ∧
      4000000000 * 4000000000 < 2 ^ 64 ∧
      ((⟨[2, 5], 0⟩ : Decimal).mul 4000000000).toRat =
        (⟨[2, 5], 0⟩ : Decimal).toRat * (4000000000 : ℕ) ∧
      mulInPlace 4000000000 [2, 5] 0 = some ([1], 10) ∧
      ((mulInPlace 4000000000 [2, 5] 0).bind fun made => mulInPlace 4000000000 made.1 made.2) =
        some ([4], 19) := by
  have hx : (⟨[2, 5], 0⟩ : Decimal).Canonical := ⟨by decide, by decide, by simp⟩
  have hpos : 0 < 4000000000 := by decide
  have hword : word? 0 = some 0 := by decide
  obtain ⟨hval, -, -, hplace, htwo⟩ := mul_exact hx hpos (by decide)
  refine ⟨hx, hword, hpos, by decide, hval, (hplace hword).trans (by decide +kernel), ?_⟩
  exact ((htwo 4000000000 hpos (by decide)).2 hword).trans (by decide +kernel)

end Decimal

end Numerals
