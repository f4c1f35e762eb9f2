import Mathlib.Algebra.Order.Round
import Numerals.Decimal.Rounding
import Numerals.Proofs.Decimal.Value

/-!
# Rounding to whole numbers

`RoundingMode.select` rounds a signed number to an integer: the rule that each mode stands for,
without digits. A magnitude is rounded digit by digit, and `round_select` says that this is the same
once the magnitude counts units of the last digit that stays and takes its sign back.
-/

namespace Numerals

namespace RoundingMode

/-- The nearer neighbour of a number, or `tie` from the middle. -/
def nearest (q : ℚ) (tie : ℤ) : ℤ :=
  if Int.fract q < 1 / 2 then ⌊q⌋ else if 1 / 2 < Int.fract q then ⌈q⌉ else tie

def awayFromZero (q : ℚ) : ℤ := if q < 0 then ⌊q⌋ else ⌈q⌉

def towardZero (q : ℚ) : ℤ := if q < 0 then ⌈q⌉ else ⌊q⌋

/-- The neighbour that a mode rounds a number to, if the number is not whole. -/
def neighbour (q : ℚ) : RoundingMode → Option ℤ
  | halfEven => some (nearest q (if Even ⌊q⌋ then ⌊q⌋ else ⌈q⌉))
  | halfUp => some (nearest q (awayFromZero q))
  | halfDown => some (nearest q (towardZero q))
  | up => some (awayFromZero q)
  | down => some (towardZero q)
  | ceiling => some ⌈q⌉
  | floor => some ⌊q⌋
  | unnecessary => none

/-- The integer that a mode rounds a number to. A whole number needs no rounding. -/
def select (mode : RoundingMode) (q : ℚ) : Option ℤ :=
  if Int.fract q = 0 then some ⌊q⌋ else mode.neighbour q

theorem fract_eq_zero_iff {q : ℚ} : Int.fract q = 0 ↔ ∃ k : ℤ, q = k := by
  rw [Int.fract_eq_zero_iff]
  exact ⟨fun ⟨k, hk⟩ => ⟨k, hk.symm⟩, fun ⟨k, hk⟩ => ⟨k, hk.symm⟩⟩

/-- Only one mode refuses, and only what is not whole. -/
theorem select_eq_none_iff {mode : RoundingMode} {q : ℚ} :
    mode.select q = none ↔ mode = unnecessary ∧ ¬∃ k : ℤ, q = k := by
  rw [← fract_eq_zero_iff, select]
  split
  · next h => simp [h]
  · next h => cases mode <;> simp [h, neighbour]

theorem exists_increments {mode : RoundingMode} (h : mode ≠ .unnecessary)
    (tail : Ordering) (odd negative : Bool) :
    ∃ up, mode.increments tail odd negative = some up := by
  cases mode <;> first | exact ⟨_, rfl⟩ | exact absurd rfl h

/-! ## Signs -/

/-- A magnitude with a sign. -/
def signed {α : Type} [Neg α] (negative : Bool) (a : α) : α := if negative then -a else a

section
variable {y : ℚ} (h : Int.fract y ≠ 0)
include h

theorem ceil_eq_floor_add_one : ⌈y⌉ = ⌊y⌋ + 1 := by
  have hpos := (Int.fract_nonneg y).lt_of_ne' h
  have hlt := Int.lt_floor_add_one y
  have hself := Int.floor_add_fract y
  rw [Int.ceil_eq_iff]
  push_cast
  exact ⟨by linarith, by linarith⟩

theorem pos_of_fract (hy : 0 ≤ y) : 0 < y :=
  hy.lt_of_ne fun h0 => h (by rw [← h0, Int.fract_zero])

theorem awayFromZero_signed (negative : Bool) (hy : 0 ≤ y) :
    awayFromZero (signed negative y) = signed negative (⌊y⌋ + 1) := by
  have hpos := pos_of_fract h hy
  rw [← ceil_eq_floor_add_one h]
  cases negative
  · exact if_neg hpos.not_gt
  · exact (if_pos (neg_neg_of_pos hpos)).trans Int.floor_neg

theorem towardZero_signed (negative : Bool) (hy : 0 ≤ y) :
    towardZero (signed negative y) = signed negative ⌊y⌋ := by
  have hpos := pos_of_fract h hy
  cases negative
  · exact if_neg hpos.not_gt
  · exact (if_pos (neg_neg_of_pos hpos)).trans Int.ceil_neg

theorem nearest_signed (negative : Bool) (tie : ℤ) :
    nearest (signed negative y) tie =
      match compare (Int.fract y) (1 / 2) with
      | .lt => signed negative ⌊y⌋
      | .eq => tie
      | .gt => signed negative (⌊y⌋ + 1) := by
  have hfract := Int.fract_neg h
  rw [← ceil_eq_floor_add_one h]
  rcases lt_trichotomy (Int.fract y) (1 / 2) with ht | ht | ht
  · rw [compare_lt_iff_lt.2 ht]
    cases negative
    · exact if_pos ht
    · have hle : ¬Int.fract (-y) < 1 / 2 := by rw [hfract]; linarith
      have hgt : 1 / 2 < Int.fract (-y) := by rw [hfract]; linarith
      exact (if_neg hle).trans ((if_pos hgt).trans Int.ceil_neg)
  · rw [compare_eq_iff_eq.2 ht]
    have hmid : Int.fract (signed negative y) = 1 / 2 := by
      cases negative
      · exact ht
      · exact hfract.trans (by rw [ht]; norm_num)
    rw [nearest, hmid, if_neg (lt_irrefl _), if_neg (lt_irrefl _)]
  · rw [compare_gt_iff_gt.2 ht]
    cases negative
    · exact (if_neg ht.not_gt).trans (if_pos ht)
    · have hlt : Int.fract (-y) < 1 / 2 := by rw [hfract]; linarith
      exact (if_pos hlt).trans Int.floor_neg

theorem even_signed (negative : Bool) :
    (if Even ⌊signed negative y⌋ then ⌊signed negative y⌋ else ⌈signed negative y⌉) =
      signed negative (if Even ⌊y⌋ then ⌊y⌋ else ⌊y⌋ + 1) := by
  rw [← ceil_eq_floor_add_one h]
  cases negative
  · rfl
  · have hparity : Even ⌊-y⌋ ↔ ¬Even ⌊y⌋ := by
      rw [Int.floor_neg, ceil_eq_floor_add_one h, even_neg, Int.even_add_one]
    show (if Even ⌊-y⌋ then ⌊-y⌋ else ⌈-y⌉) = -(if Even ⌊y⌋ then ⌊y⌋ else ⌈y⌉)
    rw [Int.floor_neg, Int.ceil_neg] at *
    by_cases heven : Even ⌊y⌋
    · rw [if_neg (by rwa [hparity, not_not]), if_pos heven]
    · rw [if_pos (hparity.2 heven), if_neg heven]

/-- Rounding a signed number that is not whole is rounding its magnitude, with the sign told. -/
theorem neighbour_signed (mode : RoundingMode) (negative : Bool) (hy : 0 ≤ y) :
    mode.neighbour (signed negative y) =
      (mode.increments (compare (Int.fract y) (1 / 2)) (⌊y⌋₊ % 2 = 1) negative).map fun up =>
        signed negative ((if up then ⌊y⌋₊ + 1 else ⌊y⌋₊ : ℕ) : ℤ) := by
  have hfloor : ⌊y⌋ = (⌊y⌋₊ : ℤ) := (Int.natCast_floor_eq_floor hy).symm
  have heven : Even ⌊y⌋ ↔ ⌊y⌋₊ % 2 ≠ 1 := by
    rw [hfloor, Int.even_coe_nat, Nat.even_iff]
    omega
  have haway := awayFromZero_signed h negative hy
  have htoward := towardZero_signed h negative hy
  have hceil := ceil_eq_floor_add_one h
  rw [hfloor] at heven haway htoward
  cases mode with
  | up => simp [neighbour, increments, haway]
  | down => simp [neighbour, increments, htoward]
  | unnecessary => rfl
  | ceiling =>
    cases negative <;> simp [neighbour, increments, signed, Int.ceil_neg, hceil, hfloor]
  | floor =>
    cases negative <;> simp [neighbour, increments, signed, Int.floor_neg, hceil, hfloor]
  | halfUp =>
    rw [neighbour, nearest_signed h, haway]
    cases compare (Int.fract y) (1 / 2) <;> simp [increments, hfloor]
  | halfDown =>
    rw [neighbour, nearest_signed h, htoward]
    cases compare (Int.fract y) (1 / 2) <;> simp [increments, hfloor]
  | halfEven =>
    rw [neighbour, nearest_signed h, even_signed h]
    by_cases hodd : ⌊y⌋₊ % 2 = 1 <;> cases compare (Int.fract y) (1 / 2) <;>
      simp [increments, hfloor, heven, hodd]

end

end RoundingMode

namespace Decimal

open Digits RoundingMode

/-! ## Magnitudes -/

theorem compareHalf_eq (ds : List Digit) :
    compareHalf ds = compare (2 * toNat ds) (10 ^ ds.length) := by
  cases ds with
  | nil => rfl
  | cons d ds =>
    have hlt := toNat_lt ds
    have hd : compare d 5 = compare d.val 5 := by revert d; decide
    rw [compareHalf, hd, toNat_cons, List.length_cons, pow_succ]
    rcases Nat.lt_trichotomy d.val 5 with h | h | h
    · rw [compare_lt_iff_lt.2 h, compare_lt_iff_lt.2 (by nlinarith)]
      rfl
    · rw [compare_eq_iff_eq.2 h, h]
      by_cases h0 : toNat ds = 0
      · rw [if_pos (all_eq_zero_iff.2 h0), h0, compare_eq_iff_eq.2 (by ring)]
        rfl
      · rw [if_neg (fun h => h0 (all_eq_zero_iff.1 h)), compare_gt_iff_gt.2 (by omega)]
        rfl
    · rw [compare_gt_iff_gt.2 h, compare_gt_iff_gt.2 (by nlinarith)]
      rfl

/-- Digits after the point, compared with a half. -/
theorem compareHalf_eq_compare (ds : List Digit) :
    compareHalf ds = compare ((toNat ds : ℚ) / 10 ^ ds.length) (1 / 2) := by
  have hten : (0 : ℚ) < 10 ^ ds.length := by positivity
  rw [compareHalf_eq]
  rcases Nat.lt_trichotomy (2 * toNat ds) (10 ^ ds.length) with h | h | h
  · rw [compare_lt_iff_lt.2 h, compare_lt_iff_lt.2]
    rw [div_lt_div_iff₀ hten two_pos, one_mul, mul_comm]
    exact_mod_cast h
  · rw [compare_eq_iff_eq.2 h, compare_eq_iff_eq.2]
    rw [div_eq_div_iff hten.ne' two_ne_zero, one_mul, mul_comm]
    exact_mod_cast h
  · rw [compare_gt_iff_gt.2 h, compare_gt_iff_gt.2]
    rw [div_lt_div_iff₀ two_pos hten, one_mul, mul_comm _ (2 : ℚ)]
    exact_mod_cast h

/-- Rounding a magnitude, told by its number of units of the last digit that stays. -/
theorem round_eq {x : Decimal} (hx : x.Canonical) (maxFraction : Nat) (mode : RoundingMode)
    (negative : Bool) {y : ℚ} (hy : y = x.toRat * 10 ^ maxFraction) :
    x.round maxFraction mode negative =
      if Int.fract y = 0 then some x
      else (mode.increments (compare (Int.fract y) (1 / 2)) (⌊y⌋₊ % 2 = 1) negative).map fun up =>
        ofScaled (if up then ⌊y⌋₊ + 1 else ⌊y⌋₊) (-maxFraction) := by
  have hten : (10 : ℚ) ≠ 0 := by norm_num
  have hvalue : y = toNat x.digits * 10 ^ (x.point + maxFraction - x.digits.length : ℤ) := by
    rw [hy, toRat, mul_assoc, ← zpow_natCast, ← zpow_add₀ hten]
    congr 2
    ring
  have hempty : x.digits = [] → 0 ≤ x.point + maxFraction := fun h => by rw [hx.zero h]; omega
  unfold round
  dsimp only
  generalize x.point + (maxFraction : ℤ) = keep at hvalue hempty ⊢
  by_cases h : x.digits.length ≤ keep
  · have hexp : keep - x.digits.length = ((keep - x.digits.length).toNat : ℤ) := by omega
    rw [if_pos h, if_pos]
    rw [fract_eq_zero_iff]
    refine ⟨(toNat x.digits * 10 ^ (keep - x.digits.length).toNat : ℕ), ?_⟩
    rw [hvalue, hexp, zpow_natCast]
    push_cast
    rfl
  · have hle : keep ≤ x.digits.length := by omega
    have hlen : (x.dropped keep).length = (-keep).toNat + (x.digits.length - keep.toNat) := by
      simp [dropped]
    have htail : toNat (x.dropped keep) = toNat (x.digits.drop keep.toNat) := by
      rw [dropped, toNat_append, toNat_replicate_zero, Nat.zero_mul, Nat.zero_add]
    rw [toNat_take_drop _ hle, ← htail, ← hlen] at hvalue
    obtain ⟨hfloor, hfract⟩ := floor_fract_of_digits hvalue
    have hdrop : x.digits.drop keep.toNat ≠ [] := by
      intro hnil
      have hshort := List.drop_eq_nil_iff.1 hnil
      exact h (by have := hempty (List.length_eq_zero_iff.1 (by omega)); omega)
    have htail0 : toNat (x.dropped keep) ≠ 0 := by
      rw [htail]
      apply toNat_ne_zero hdrop
      rw [List.getLast?_drop, if_neg (by simpa using hdrop)]
      exact hx.last
    have hne : Int.fract y ≠ 0 := by
      rw [hfract]
      positivity
    rw [if_neg h, if_neg hne, compareHalf_eq_compare, hfract, hfloor]

theorem exists_round {mode : RoundingMode} (h : mode ≠ .unnecessary) (x : Decimal)
    (maxFraction : Nat) (negative : Bool) : ∃ y, x.round maxFraction mode negative = some y := by
  unfold round
  dsimp only
  split
  · exact ⟨x, rfl⟩
  · obtain ⟨up, hup⟩ := mode.exists_increments h
      (compareHalf (x.dropped (x.point + maxFraction)))
      (Digits.toNat (x.digits.take (x.point + maxFraction).toNat) % 2 = 1) negative
    exact ⟨_, by rw [hup]; rfl⟩

theorem fractionDigits_of_round {x y : Decimal} (hx : x.Canonical) {mode : RoundingMode}
    {negative : Bool} (h : x.round 0 mode negative = some y) : y.fractionDigits = [] := by
  rw [round_eq hx 0 mode negative rfl, pow_zero, mul_one] at h
  split at h
  · next hwhole =>
    cases h
    exact (fractionDigits_eq_nil_iff hx).2 hwhole
  · obtain ⟨up, -, rfl⟩ := Option.map_eq_some_iff.1 h
    rw [fractionDigits_eq_nil_iff (canonical_ofScaled _ _), toRat_ofScaled, Nat.cast_zero, neg_zero,
      zpow_zero, mul_one]
    exact Int.fract_natCast _

/-- Rounding the magnitude of a signed number is rounding the number. -/
theorem round_select {x : Decimal} (hx : x.Canonical) (maxFraction : Nat) (mode : RoundingMode)
    (negative : Bool) :
    match mode.select (signed negative (x.toRat * 10 ^ maxFraction)) with
    | none => x.round maxFraction mode negative = none
    | some k => ∃ z n : _, x.round maxFraction mode negative = some z ∧ z.Canonical ∧
        z.toRat = (n : ℕ) / 10 ^ maxFraction ∧ k = signed negative (n : ℤ) := by
  have hten : (10 : ℚ) ^ maxFraction ≠ 0 := by positivity
  have hy : 0 ≤ x.toRat * 10 ^ maxFraction := mul_nonneg x.toRat_nonneg (by positivity)
  rw [round_eq hx maxFraction mode negative rfl]
  generalize hyx : x.toRat * 10 ^ maxFraction = y at hy ⊢
  by_cases h : Int.fract y = 0
  · obtain ⟨k, hk⟩ := fract_eq_zero_iff.1 h
    lift k to ℕ using by exact_mod_cast hk ▸ hy
    have hsel : mode.select (signed negative y) = some (signed negative (k : ℤ)) := by
      have hcast : signed negative y = ((signed negative (k : ℤ) : ℤ) : ℚ) := by
        cases negative <;> simp [signed, hk]
      rw [hcast, select, if_pos (Int.fract_intCast _), Int.floor_intCast]
    rw [hsel, if_pos h]
    refine ⟨x, k, rfl, hx, ?_, rfl⟩
    rw [eq_div_iff hten, hyx, hk, Int.cast_natCast]
  · have hsel : mode.select (signed negative y) = mode.neighbour (signed negative y) := by
      refine if_neg fun h0 => h ?_
      cases negative
      · exact h0
      · exact Int.fract_neg_eq_zero.1 h0
    rw [hsel, neighbour_signed h mode negative hy, if_neg h]
    cases mode.increments (compare (Int.fract y) (1 / 2)) (⌊y⌋₊ % 2 = 1) negative with
    | none => rfl
    | some up =>
      refine ⟨_, _, rfl, canonical_ofScaled _ _, ?_, rfl⟩
      rw [toRat_ofScaled, zpow_neg, zpow_natCast, div_eq_mul_inv]

end Decimal

end Numerals
