import Mathlib.Algebra.Order.Field.Power
import Mathlib.Data.List.TakeWhile
import Mathlib.Data.Nat.Digits.Lemmas
import Mathlib.Data.Rat.Floor
import Mathlib.Tactic.Linarith
import Numerals.Decimal.Basic

/-!
# The value of a decimal

`Decimal.toRat` is the number that a decimal stands for. The operations on digits are exact for it:

* `toRat_ofDigits`, `toRat_ofScaled`: trimming changes no value.
* `toRat_mul`: a product is not rounded.
* `toNat_integerDigits`, `toNat_fractionDigits`: the digits before the point make the whole part,
  and those after it the rest.
* `isZero_iff`: only zero has no digits.
* `Canonical.eq_of_toRat_eq`: a number has one canonical form only.
-/

namespace Numerals

/-! ## Digits -/

namespace Digits

theorem toNat_append (as bs : List Digit) :
    toNat (as ++ bs) = toNat as * 10 ^ bs.length + toNat bs := by
  induction bs using List.reverseRecOn with
  | nil => simp
  | append_singleton bs d ih =>
    rw [← List.append_assoc, toNat_concat, toNat_concat, ih, List.length_append,
      List.length_singleton, pow_succ]
    ring

theorem toNat_cons (d : Digit) (ds : List Digit) :
    toNat (d :: ds) = d.val * 10 ^ ds.length + toNat ds := by
  have h := toNat_append [d] ds
  simpa [toNat] using h

theorem toNat_replicate_zero (n : Nat) : toNat (List.replicate n 0) = 0 := by
  induction n with
  | zero => rfl
  | succ n ih => simp [List.replicate_succ, toNat_cons, ih]

theorem toNat_lt (ds : List Digit) : toNat ds < 10 ^ ds.length := by
  induction ds with
  | nil => simp
  | cons d ds ih =>
    have hd := d.isLt
    rw [toNat_cons, List.length_cons, pow_succ]
    nlinarith

/-- The value of digits that do not start with zero needs all of them. -/
theorem le_toNat {d : Digit} {ds : List Digit} (h : d ≠ 0) : 10 ^ ds.length ≤ toNat (d :: ds) := by
  have hd : 1 ≤ d.val := Nat.one_le_iff_ne_zero.2 fun h0 => h (Fin.ext h0)
  calc 10 ^ ds.length ≤ d.val * 10 ^ ds.length := Nat.le_mul_of_pos_left _ hd
    _ ≤ toNat (d :: ds) := by rw [toNat_cons]; exact Nat.le_add_right _ _

theorem length_digits_toNat {ds : List Digit} (h : ds.head? ≠ some 0) :
    (Nat.digits 10 (toNat ds)).length = ds.length := by
  cases ds with
  | nil => simp
  | cons d ds =>
    have hd : d ≠ 0 := by simpa using h
    have hle : 10 ^ ds.length ≤ toNat (d :: ds) := le_toNat hd
    have hlt := toNat_lt (d :: ds)
    have hpos : toNat (d :: ds) ≠ 0 := Nat.ne_of_gt (Nat.lt_of_lt_of_le (by positivity) hle)
    rw [Nat.length_digits 10 _ (by decide) hpos, List.length_cons,
      Nat.log_eq_of_pow_le_of_lt_pow hle hlt]

theorem all_eq_zero_iff {ds : List Digit} : ds.all (· = 0) = true ↔ toNat ds = 0 := by
  induction ds with
  | nil => simp
  | cons d ds ih =>
    rw [List.all_cons, Bool.and_eq_true, ih, toNat_cons, Nat.add_eq_zero_iff, Nat.mul_eq_zero,
      decide_eq_true_iff, Fin.ext_iff]
    simp

theorem toNat_ne_zero {ds : List Digit} (hne : ds ≠ []) (h : ds.getLast? ≠ some 0) :
    toNat ds ≠ 0 := by
  obtain ⟨ds, d, rfl⟩ := (List.eq_nil_or_concat ds).resolve_left hne
  intro h0
  have h0 : d.val = 0 := by
    rw [List.concat_eq_append, toNat_concat] at h0
    omega
  exact h (by simp [Fin.ext_iff, h0])

theorem toNat_inj {as bs : List Digit} (hlen : as.length = bs.length)
    (h : toNat as = toNat bs) : as = bs := by
  induction as generalizing bs with
  | nil => exact (List.length_eq_zero_iff.1 hlen.symm).symm
  | cons a as ih =>
    cases bs with
    | nil => cases hlen
    | cons b bs =>
      obtain hlen : as.length = bs.length := Nat.succ.inj hlen
      have ha := toNat_lt as
      have hb := toNat_lt bs
      rw [toNat_cons, toNat_cons, ← hlen] at h
      rw [← hlen] at hb
      have htail : toNat as = toNat bs := by
        have hmod := congrArg (· % 10 ^ as.length) h
        simpa only [Nat.mul_add_mod_of_lt ha, Nat.mul_add_mod_of_lt hb] using hmod
      have hhead : a.val = b.val := by
        rw [htail, Nat.add_right_cancel_iff] at h
        exact Nat.eq_of_mul_eq_mul_right (by positivity) h
      rw [Fin.ext hhead, ih hlen htail]

/-- Fraction digits with one value are the same, where the longer ones do not end in zero. -/
theorem fraction_unique {as bs : List Digit} {least : Nat}
    (h : (toNat as : ℚ) / 10 ^ as.length = toNat bs / 10 ^ bs.length) (hle : least ≤ as.length)
    (hlen : as.length ≤ bs.length) (hlast : least < bs.length → bs.getLast? ≠ some 0) :
    as = bs := by
  obtain ⟨k, hk⟩ := Nat.exists_eq_add_of_le hlen
  have hval : toNat bs = toNat as * 10 ^ k := by
    rw [hk, pow_add, div_eq_div_iff (by positivity) (by positivity)] at h
    have hten : (10 : ℚ) ^ as.length ≠ 0 := by positivity
    have hcast : (toNat bs : ℚ) = toNat as * 10 ^ k := by
      apply mul_right_cancel₀ hten
      linarith
    exact_mod_cast hcast
  cases k with
  | zero =>
    rw [pow_zero, Nat.mul_one] at hval
    exact toNat_inj hk.symm hval.symm
  | succ k =>
    exfalso
    obtain ⟨ds, d, hbs⟩ := (List.eq_nil_or_concat bs).resolve_left
      (List.ne_nil_of_length_pos (by omega))
    rw [List.concat_eq_append] at hbs
    subst hbs
    rw [toNat_concat, pow_succ, ← Nat.mul_assoc] at hval
    have hd : d = 0 := Fin.ext (by have := d.isLt; show d.val = 0; omega)
    exact hlast (by omega) (by rw [List.getLast?_concat, hd])

theorem fraction_inj {as bs : List Digit}
    (h : (toNat as : ℚ) / 10 ^ as.length = toNat bs / 10 ^ bs.length)
    (has : as.getLast? ≠ some 0) (hbs : bs.getLast? ≠ some 0) : as = bs := by
  rcases Nat.le_total as.length bs.length with hlen | hlen
  · exact fraction_unique h (Nat.zero_le _) hlen fun _ => hbs
  · exact (fraction_unique h.symm (Nat.zero_le _) hlen fun _ => has).symm

end Digits

namespace Decimal

open Digits

/-- The number 0.d₁…dₙ · 10^point. -/
def toRat (x : Decimal) : ℚ := toNat x.digits * 10 ^ (x.point - x.digits.length)

theorem toRat_nonneg (x : Decimal) : 0 ≤ x.toRat := by
  unfold toRat
  positivity

@[simp] theorem toRat_zero : zero.toRat = 0 := by
  simp [zero, toRat]

/-! ## Trimming -/

theorem exists_dropWhile (ds : List Digit) :
    ∃ n, ds = List.replicate n 0 ++ ds.dropWhile (· = 0) := by
  refine ⟨(ds.takeWhile (· = 0)).length, ?_⟩
  have hz : ds.takeWhile (· = 0) = List.replicate (ds.takeWhile (· = 0)).length 0 :=
    List.eq_replicate_of_mem fun d hd => by simpa using List.mem_takeWhile_imp hd
  rw [← hz, List.takeWhile_append_dropWhile]

theorem exists_trimEnd (ds : List Digit) : ∃ n, ds = trimEnd ds ++ List.replicate n 0 := by
  obtain ⟨n, hn⟩ := exists_dropWhile ds.reverse
  refine ⟨n, ?_⟩
  have := congrArg List.reverse hn
  rwa [List.reverse_reverse, List.reverse_append, List.reverse_replicate] at this

theorem toNat_dropWhile (ds : List Digit) : toNat (ds.dropWhile (· = 0)) = toNat ds := by
  obtain ⟨n, hn⟩ := exists_dropWhile ds
  conv_rhs => rw [hn]
  rw [toNat_append, toNat_replicate_zero, Nat.zero_mul, Nat.zero_add]

theorem toRat_ofDigits (ds : List Digit) (point : Int) :
    (ofDigits ds point).toRat = toNat ds * 10 ^ (point - ds.length) := by
  have hval := toNat_dropWhile ds
  unfold ofDigits
  generalize ds.dropWhile (· = 0) = significant at hval
  dsimp only
  split
  · next h =>
    subst h
    simp [← hval]
  · obtain ⟨k, hk⟩ := exists_trimEnd significant
    have hsig : toNat significant = toNat (trimEnd significant) * 10 ^ k := by
      have := congrArg toNat hk
      rwa [toNat_append, toNat_replicate_zero, List.length_replicate, Nat.add_zero] at this
    have hlen : significant.length = (trimEnd significant).length + k := by
      have := congrArg List.length hk
      rwa [List.length_append, List.length_replicate] at this
    have hexp : point - (ds.length - significant.length : ℤ) - (trimEnd significant).length =
        k + (point - ds.length) := by omega
    show (toNat (trimEnd significant) : ℚ) * 10 ^ (_ - _ - _ : ℤ) = _
    rw [hexp, ← hval, hsig, zpow_add₀ (by norm_num), zpow_natCast, Nat.cast_mul, Nat.cast_pow]
    push_cast
    ring

theorem toRat_ofScaled (n : Nat) (exponent : Int) :
    (ofScaled n exponent).toRat = n * 10 ^ exponent := by
  rw [ofScaled, toRat_ofDigits, toNat_ofNat]
  congr 2
  omega

@[simp] theorem toRat_ofNat (n : Nat) : (ofNat n).toRat = n := by
  rw [ofNat, toRat_ofScaled, zpow_zero, mul_one]

theorem canonical_ofScaled (n : Nat) (exponent : Int) : (ofScaled n exponent).Canonical :=
  canonical_ofDigits _ _

theorem isZero_iff {x : Decimal} (hx : x.Canonical) : x.isZero = true ↔ x.toRat = 0 := by
  have hpow : (10 : ℚ) ^ (x.point - x.digits.length) ≠ 0 := zpow_ne_zero _ (by norm_num)
  rw [isZero, List.isEmpty_iff, toRat, mul_eq_zero, or_iff_left hpow, Nat.cast_eq_zero]
  refine ⟨fun h => by rw [h, toNat_nil], fun h => ?_⟩
  by_contra hne
  exact toNat_ne_zero hne hx.last h

/-! ## Canonical form -/

theorem toRat_eq_fraction (x : Decimal) :
    x.toRat = toNat x.digits / 10 ^ x.digits.length * 10 ^ x.point := by
  rw [toRat, zpow_sub₀ (by norm_num), zpow_natCast]
  ring

theorem toRat_lt (x : Decimal) : x.toRat < 10 ^ x.point := by
  have hlt : (toNat x.digits : ℚ) < 10 ^ x.digits.length := by exact_mod_cast toNat_lt x.digits
  have hpow : (0 : ℚ) < 10 ^ x.point := by positivity
  rw [toRat_eq_fraction, mul_lt_iff_lt_one_left hpow, div_lt_one (by positivity)]
  exact hlt

theorem Canonical.le_toRat {x : Decimal} (hx : x.Canonical) (hne : x.digits ≠ []) :
    10 ^ (x.point - 1) ≤ x.toRat := by
  obtain ⟨d, ds, hds⟩ := List.exists_cons_of_ne_nil hne
  have hd : d ≠ 0 := by
    have hhead := hx.head
    rw [hds] at hhead
    simpa using hhead
  have hle : (10 : ℚ) ^ ds.length ≤ toNat (d :: ds) := by exact_mod_cast le_toNat hd
  have hexp : x.point - 1 = ds.length + (x.point - (d :: ds).length) := by
    rw [List.length_cons]
    push_cast
    ring
  rw [toRat, hds, hexp, zpow_add₀ (by norm_num), zpow_natCast]
  exact mul_le_mul_of_nonneg_right hle (by positivity)

theorem Canonical.point_le {x y : Decimal} (hx : x.Canonical) (hne : x.digits ≠ [])
    (hle : x.toRat ≤ y.toRat) : x.point ≤ y.point := by
  have hlt := ((hx.le_toRat hne).trans hle).trans_lt y.toRat_lt
  have := (zpow_lt_zpow_iff_right₀ (by norm_num : (1 : ℚ) < 10)).1 hlt
  omega

/-- **One form.** Canonical decimals that stand for one number are the same. -/
theorem Canonical.eq_of_toRat_eq {x y : Decimal} (hx : x.Canonical) (hy : y.Canonical)
    (h : x.toRat = y.toRat) : x = y := by
  by_cases hzero : x.toRat = 0
  · have hxnil := List.isEmpty_iff.1 ((isZero_iff hx).2 hzero)
    have hynil := List.isEmpty_iff.1 ((isZero_iff hy).2 (h ▸ hzero))
    obtain ⟨ds, p⟩ := x
    obtain ⟨es, q⟩ := y
    have hp := hx.zero hxnil
    have hq := hy.zero hynil
    simp only at hxnil hynil hp hq
    rw [hxnil, hynil, hp, hq]
  · have hne {z : Decimal} (hz : z.Canonical) (h0 : z.toRat ≠ 0) : z.digits ≠ [] := fun hnil =>
      h0 ((isZero_iff hz).1 (List.isEmpty_iff.2 hnil))
    have hpoint : x.point = y.point :=
      le_antisymm (hx.point_le (hne hx hzero) h.le) (hy.point_le (hne hy (h ▸ hzero)) h.ge)
    have hpow : (10 : ℚ) ^ y.point ≠ 0 := by positivity
    have hfraction : (toNat x.digits : ℚ) / 10 ^ x.digits.length =
        toNat y.digits / 10 ^ y.digits.length := by
      rw [toRat_eq_fraction, toRat_eq_fraction, hpoint] at h
      exact mul_right_cancel₀ hpow h
    have hdigits := fraction_inj hfraction hx.last hy.last
    obtain ⟨ds, p⟩ := x
    obtain ⟨es, q⟩ := y
    cases hpoint
    cases hdigits
    rfl

/-! ## Products -/

theorem mulDigits_spec (factor : Nat) (ds : List Digit) :
    (mulDigits factor ds).2.length = ds.length ∧
      toNat ds * factor =
        (mulDigits factor ds).1 * 10 ^ ds.length + toNat (mulDigits factor ds).2 := by
  induction ds with
  | nil => simp [mulDigits]
  | cons d ds ih =>
    obtain ⟨hlen, hval⟩ := ih
    rw [mulDigits]
    generalize mulDigits factor ds = r at hlen hval
    obtain ⟨carry, product⟩ := r
    simp only at hlen hval ⊢
    refine ⟨by simp [hlen], ?_⟩
    have hd : (Fin.ofNat 10 (d.val * factor + carry)).val = (d.val * factor + carry) % 10 := rfl
    have hdiv := Nat.div_add_mod (d.val * factor + carry) 10
    rw [toNat_cons, toNat_cons, hlen, hd, List.length_cons, Nat.add_mul, hval]
    generalize (d.val * factor + carry) / 10 = q at hdiv ⊢
    generalize (d.val * factor + carry) % 10 = r at hdiv ⊢
    calc d.val * 10 ^ ds.length * factor + (carry * 10 ^ ds.length + toNat product)
        = (d.val * factor + carry) * 10 ^ ds.length + toNat product := by ring
      _ = q * 10 ^ (ds.length + 1) + (r * 10 ^ ds.length + toNat product) := by
          rw [← hdiv]; ring

theorem toRat_mul (x : Decimal) (factor : Nat) : (x.mul factor).toRat = x.toRat * factor := by
  obtain ⟨hlen, hval⟩ := mulDigits_spec factor x.digits
  unfold mul
  generalize mulDigits factor x.digits = r at hlen hval
  obtain ⟨carry, product⟩ := r
  simp only at hlen hval ⊢
  have hexp : x.point + (Digits.ofNat carry).length - (Digits.ofNat carry ++ product).length =
      x.point - x.digits.length := by
    rw [List.length_append, hlen]
    push_cast
    ring
  rw [toRat_ofDigits, hexp, toNat_append, toNat_ofNat, hlen, ← hval, toRat]
  push_cast
  ring

theorem canonical_mul (x : Decimal) (factor : Nat) : (x.mul factor).Canonical :=
  canonical_ofDigits _ _

/-! ## Digits around the point -/

/-- Digits with the point after `keep` of them: those before it, and those after it with the zeros
that stand between the point and the first digit. -/
theorem toNat_take_drop (ds : List Digit) {keep : Int} (h : keep ≤ ds.length) :
    (toNat ds : ℚ) * 10 ^ (keep - ds.length) =
      toNat (ds.take keep.toNat) +
        toNat (ds.drop keep.toNat) / 10 ^ ((-keep).toNat + (ds.length - keep.toNat)) := by
  have hsplit := toNat_append (ds.take keep.toNat) (ds.drop keep.toNat)
  rw [List.take_append_drop, List.length_drop] at hsplit
  have hten : (10 : ℚ) ≠ 0 := by norm_num
  rcases Int.le_total 0 keep with h0 | h0
  · have hexp : keep - ds.length = -((ds.length - keep.toNat : ℕ) : ℤ) := by omega
    have hneg : (-keep).toNat = 0 := by omega
    rw [hexp, hneg, hsplit, Nat.zero_add, zpow_neg, zpow_natCast]
    push_cast
    field_simp
  · have hexp : keep - ds.length = -(((-keep).toNat + ds.length : ℕ) : ℤ) := by omega
    have htake : keep.toNat = 0 := by omega
    rw [hexp, htake, zpow_neg, zpow_natCast]
    simp [div_eq_mul_inv]

theorem toRat_eq_digits (x : Decimal) :
    x.toRat = toNat x.integerDigits +
      toNat x.fractionDigits / 10 ^ x.fractionDigits.length := by
  unfold integerDigits fractionDigits toRat
  by_cases h : x.point ≤ x.digits.length
  · have hpad : x.point.toNat - x.digits.length = 0 := by omega
    rw [toNat_take_drop _ h, hpad, toNat_append (List.replicate _ _), toNat_replicate_zero]
    simp
  · have hneg : (-x.point).toNat = 0 := by omega
    have hexp : x.point - x.digits.length = ((x.point.toNat - x.digits.length : ℕ) : ℤ) := by
      omega
    have hle : x.digits.length ≤ x.point.toNat := by omega
    rw [hneg, hexp, zpow_natCast, List.take_of_length_le hle, List.drop_of_length_le hle,
      toNat_append, toNat_replicate_zero, List.length_replicate]
    simp

theorem floor_fract_of_digits {y : ℚ} {n : Nat} {ds : List Digit}
    (h : y = n + toNat ds / 10 ^ ds.length) :
    ⌊y⌋₊ = n ∧ Int.fract y = toNat ds / 10 ^ ds.length := by
  have hlt : (toNat ds : ℚ) < 10 ^ ds.length := by exact_mod_cast toNat_lt ds
  have hnonneg : (0 : ℚ) ≤ toNat ds / 10 ^ ds.length := by positivity
  have hlt' : (toNat ds : ℚ) / 10 ^ ds.length < 1 := by rwa [div_lt_one (by positivity)]
  constructor
  · rw [h, Nat.floor_eq_iff (by positivity)]
    exact ⟨by linarith, by linarith⟩
  · rw [h, Int.fract_natCast_add, Int.fract_eq_self.2 ⟨hnonneg, hlt'⟩]

/-- The digits before the point make the whole part. -/
theorem toNat_integerDigits (x : Decimal) : toNat x.integerDigits = ⌊x.toRat⌋₊ :=
  (floor_fract_of_digits x.toRat_eq_digits).1.symm

/-- The digits after the point make the rest. -/
theorem toNat_fractionDigits (x : Decimal) :
    (toNat x.fractionDigits : ℚ) / 10 ^ x.fractionDigits.length = Int.fract x.toRat :=
  (floor_fract_of_digits x.toRat_eq_digits).2.symm

theorem head?_integerDigits {x : Decimal} (hx : x.Canonical) : x.integerDigits.head? ≠ some 0 := by
  unfold integerDigits
  cases hds : x.digits with
  | nil => simp [hx.zero hds]
  | cons d ds =>
    have hd := hx.head
    rw [hds] at hd
    cases hp : x.point.toNat with
    | zero => simp
    | succ n => simpa using hd

theorem getLast?_fractionDigits {x : Decimal} (hx : x.Canonical) :
    x.fractionDigits.getLast? ≠ some 0 := by
  unfold fractionDigits
  by_cases h : x.digits.drop x.point.toNat = []
  · have hneg : (-x.point).toNat = 0 := by
      have hle := List.drop_eq_nil_iff.1 h
      by_cases hds : x.digits = []
      · rw [hx.zero hds]
        rfl
      · have := List.length_pos_of_ne_nil hds
        omega
    simp [h, hneg]
  · rw [List.getLast?_append_of_ne_nil _ h, List.getLast?_drop, if_neg]
    · exact hx.last
    · simpa using h

theorem fractionDigits_eq_nil_iff {x : Decimal} (hx : x.Canonical) :
    x.fractionDigits = [] ↔ Int.fract x.toRat = 0 := by
  rw [← x.toNat_fractionDigits]
  constructor
  · intro h
    simp [h]
  · intro h
    by_contra hne
    have hten : (10 : ℚ) ^ x.fractionDigits.length ≠ 0 := by positivity
    have hzero := (div_eq_zero_iff.1 h).resolve_right hten
    exact toNat_ne_zero hne (getLast?_fractionDigits hx) (by exact_mod_cast hzero)

end Decimal

end Numerals
