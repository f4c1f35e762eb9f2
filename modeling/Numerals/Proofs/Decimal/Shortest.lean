import Numerals.Binary64
import Numerals.Proofs.Decimal.Value

/-!
# Shortest decimals of whole numbers

The search for the shortest decimal ends no finer than at a scale that has the number itself
(`shortest_of_value`). All decimals of the interval at such a scale are whole where the number is,
and a whole number within the exact bound has no other one in its interval: it is its own shortest
decimal (`toRat_magnitude`).
-/

namespace Numerals

namespace RoundingInterval

variable {i : RoundingInterval}

theorem bounds_of_contains {x : Nat} (h : i.contains x = true) : i.lower ≤ x ∧ x ≤ i.upper := by
  unfold contains at h
  split at h <;> simp only [Bool.and_eq_true, decide_eq_true_eq] at h <;> omega

theorem contains_of_nearest? {scale n : Nat} (h : i.nearest? scale = some n) :
    i.contains (n * (4 * 10 ^ scale)) = true := by
  unfold nearest? at h
  dsimp only at h
  split at h
  · next hb =>
    rw [Bool.and_eq_true] at hb
    cases h
    split
    · exact hb.1
    · exact hb.2
  · split at h
    · next ha => cases h; exact ha
    · split at h
      · next hb => cases h; exact hb
      · cases h

theorem nearest?_of_value {scale n : Nat} (h : i.value = n * (4 * 10 ^ scale))
    (hc : i.contains i.value = true) : i.nearest? scale = some n := by
  have hstep : 0 < 4 * 10 ^ scale := by positivity
  have hdiv : i.value / (4 * 10 ^ scale) = n := by rw [h, Nat.mul_div_cancel _ hstep]
  have hnext : n * (4 * 10 ^ scale) - n * (4 * 10 ^ scale) <
      (n + 1) * (4 * 10 ^ scale) - n * (4 * 10 ^ scale) := by
    rw [Nat.add_mul]
    omega
  rw [h] at hc
  unfold nearest?
  simp only [Nat.pow_eq, hdiv, hc, Bool.true_and]
  rw [h, if_pos hnext]
  split <;> rfl

/-- The search ends no finer than at a scale that has the value. -/
theorem shortest_of_value {scale n bound : Nat} (h : i.value = n * (4 * 10 ^ scale))
    (hc : i.contains i.value = true) (hle : scale ≤ bound) :
    scale ≤ (i.shortest bound).2 ∧
      i.contains ((i.shortest bound).1 * (4 * 10 ^ (i.shortest bound).2)) = true ∧
      ((i.shortest bound).2 = 0 → (i.shortest bound).1 = i.value / 4) := by
  induction bound with
  | zero =>
    obtain rfl : scale = 0 := by omega
    have hvalue : i.value / 4 * (4 * 10 ^ 0) = i.value := by omega
    refine ⟨Nat.le_refl 0, ?_, fun _ => rfl⟩
    show i.contains (i.value / 4 * (4 * 10 ^ 0)) = true
    rwa [hvalue]
  | succ bound ih =>
    rw [shortest]
    cases hn : i.nearest? (bound + 1) with
    | some m => exact ⟨hle, contains_of_nearest? hn, fun h0 => by simp at h0⟩
    | none =>
      apply ih
      rcases Nat.lt_or_ge bound scale with hlt | hge
      · obtain rfl : scale = bound + 1 := by omega
        rw [nearest?_of_value h hc] at hn
        cases hn
      · exact hge

end RoundingInterval

namespace Binary64

variable {x : Binary64} {n : Nat}

/-- How fine the unit is: the decimal places that the magnitude may have. -/
def places (x : Binary64) : Nat := (-x.exponent).toNat

theorem unitFactor_eq (x : Binary64) : x.unitFactor = 2 ^ x.exponent.toNat * 5 ^ x.places := rfl

theorem unitFactor_pos (x : Binary64) : 0 < x.unitFactor := by
  rw [unitFactor_eq]
  positivity

theorem value_of_natAbs? (h : x.natAbs? = some n) :
    x.roundingInterval.value = n * (4 * 10 ^ x.places) := by
  have hten : (10 : ℕ) ^ x.places = 2 ^ x.places * 5 ^ x.places := by rw [← Nat.mul_pow]
  show 4 * x.significand * (2 ^ x.exponent.toNat * 5 ^ x.places) = _
  unfold natAbs? at h
  simp only [Nat.pow_eq] at h
  split at h
  · cases h
  · split at h
    · next he =>
      cases h
      have hplaces : x.places = 0 := by unfold places; omega
      rw [hplaces]
      ring
    · next he =>
      split at h
      · next hmod =>
        cases h
        have hexp : x.exponent.toNat = 0 := by omega
        have hsig := Nat.div_mul_cancel (Nat.dvd_of_mod_eq_zero hmod)
        change x.significand / 2 ^ x.places * 2 ^ x.places = x.significand at hsig
        show _ = x.significand / 2 ^ x.places * (4 * 10 ^ x.places)
        rw [hexp, hten]
        conv_lhs => rw [← hsig]
        ring
      · cases h

theorem contains_value (h : x.significand ≠ 0) :
    x.roundingInterval.contains x.roundingInterval.value = true := by
  have hu := x.unitFactor_pos
  have hlower : x.roundingInterval.lower < x.roundingInterval.value := by
    show (4 * x.significand - _) * x.unitFactor < 4 * x.significand * x.unitFactor
    refine Nat.mul_lt_mul_of_pos_right ?_ hu
    split <;> omega
  have hupper : x.roundingInterval.value < x.roundingInterval.upper :=
    Nat.mul_lt_mul_of_pos_right (by omega) hu
  unfold RoundingInterval.contains
  split <;> simp only [Bool.and_eq_true, decide_eq_true_eq] <;> omega

/-- The interval reaches two units to each side of the value at most. -/
theorem near_of_contains {m : Nat} (h : x.roundingInterval.contains m = true) :
    m ≤ x.roundingInterval.value + 2 * x.unitFactor ∧
      x.roundingInterval.value ≤ m + 2 * x.unitFactor := by
  obtain ⟨hlower, hupper⟩ := RoundingInterval.bounds_of_contains h
  have hsub : x.roundingInterval.value - 2 * x.unitFactor ≤ x.roundingInterval.lower := by
    show 4 * x.significand * x.unitFactor - 2 * x.unitFactor ≤
      (4 * x.significand - _) * x.unitFactor
    rw [← Nat.sub_mul]
    apply Nat.mul_le_mul_right
    split <;> omega
  have hadd : x.roundingInterval.upper = x.roundingInterval.value + 2 * x.unitFactor :=
    Nat.add_mul ..
  omega

/-- Two units are less than the distance of whole numbers, up to the exact bound and but for this
bound itself. -/
theorem unitFactor_lt_or (h : x.natAbs? = some n) (hn : n ≤ 2 ^ 53) :
    2 * x.unitFactor < 4 * 10 ^ x.places ∨
      x.places = 0 ∧ x.unitFactor = 2 ∧ n = 2 ^ 53 := by
  by_cases hexp : x.exponent ≤ 0
  · left
    have hu : x.unitFactor = 5 ^ x.places := by
      rw [unitFactor_eq, show x.exponent.toNat = 0 by omega, pow_zero, Nat.one_mul]
    have hle : 5 ^ x.places ≤ 10 ^ x.places := Nat.pow_le_pow_left (by decide) _
    have hpos : 0 < 5 ^ x.places := by positivity
    omega
  · right
    have hplaces : x.places = 0 := by unfold places; omega
    have hfield : x.exponentField ≠ 0 := by
      intro h0
      unfold exponent at hexp
      rw [h0] at hexp
      exact hexp (by decide)
    have hsig : 2 ^ 52 ≤ x.significand := by
      rw [significand, if_neg hfield]
      omega
    have hnat : n = x.significand * 2 ^ x.exponent.toNat := by
      unfold natAbs? at h
      split at h
      · cases h
      · rw [if_pos (by omega)] at h
        cases h
        rfl
    obtain ⟨k, hk⟩ : ∃ k, x.exponent.toNat = k + 1 := ⟨x.exponent.toNat - 1, by omega⟩
    rw [hk, pow_succ] at hnat
    have hpow : 2 ^ 52 * (2 ^ k * 2) ≤ 2 ^ 53 := by
      calc 2 ^ 52 * (2 ^ k * 2) ≤ x.significand * (2 ^ k * 2) := Nat.mul_le_mul_right _ hsig
        _ ≤ 2 ^ 53 := hnat ▸ hn
    have hk1 : 2 ^ k = 1 := by
      have : 0 < 2 ^ k := by positivity
      omega
    refine ⟨hplaces, ?_, ?_⟩
    · rw [unitFactor_eq, hk, hplaces, pow_succ, hk1]
      rfl
    · rw [hk1] at hnat
      omega

theorem places_le_scaleBound (hn : n ≠ 0) (h : x.natAbs? = some n) :
    x.places ≤ x.roundingInterval.scaleBound := by
  have hvalue := value_of_natAbs? h
  have hupper : x.roundingInterval.value ≤ x.roundingInterval.upper :=
    Nat.mul_le_mul_right _ (by omega)
  have height : 2 ^ (3 * x.places) ≤ x.roundingInterval.upper := by
    calc 2 ^ (3 * x.places) = 8 ^ x.places := by rw [pow_mul]; rfl
      _ ≤ 10 ^ x.places := Nat.pow_le_pow_left (by decide) _
      _ ≤ n * (4 * 10 ^ x.places) := by nlinarith [Nat.one_le_iff_ne_zero.2 hn]
      _ ≤ x.roundingInterval.upper := hvalue ▸ hupper
  have hlog := (Nat.le_log2 (by have : 0 < 2 ^ (3 * x.places) := by positivity
                                omega)).2 height
  unfold RoundingInterval.scaleBound
  omega

/-- A decimal of the interval that has no more places than the unit is the number itself. -/
theorem eq_of_contains {m : Nat} (h : x.natAbs? = some n) (hn : n ≤ 2 ^ 53)
    (hc : x.roundingInterval.contains (m * (4 * 10 ^ x.places)) = true)
    (hm : x.places = 0 → m = n ∨ 10 ∣ m) : m = n := by
  obtain ⟨hle, hge⟩ := near_of_contains hc
  rw [value_of_natAbs? h] at hle hge
  rcases unitFactor_lt_or h hn with hu | ⟨hplaces, hu, hn⟩
  · have hlt : m * (4 * 10 ^ x.places) < (n + 1) * (4 * 10 ^ x.places) := by
      rw [Nat.add_mul, Nat.one_mul]
      omega
    have hgt : n * (4 * 10 ^ x.places) < (m + 1) * (4 * 10 ^ x.places) := by
      rw [Nat.add_mul, Nat.one_mul]
      omega
    have := Nat.lt_of_mul_lt_mul_right hlt
    have := Nat.lt_of_mul_lt_mul_right hgt
    omega
  · -- at the bound the number after it is in the interval too, but has no shorter decimal
    rw [hplaces, hu] at hle hge
    rcases hm hplaces with hm | hm <;> omega

/-- A whole number within the exact bound is its own shortest decimal. -/
theorem toRat_magnitude (h : x.natAbs? = some n) (hn : n ≤ 2 ^ 53) : x.magnitude.toRat = n := by
  have hvalue := value_of_natAbs? h
  have hu := x.unitFactor_pos
  unfold magnitude
  split
  · next hsig =>
    have hzero : x.roundingInterval.value = 0 := by
      show 4 * x.significand * x.unitFactor = 0
      rw [hsig, Nat.mul_zero, Nat.zero_mul]
    have hn0 : n = 0 := by
      rw [hzero, eq_comm, Nat.mul_eq_zero] at hvalue
      exact hvalue.resolve_right (by positivity)
    rw [hn0, Decimal.toRat_zero, Nat.cast_zero]
  · next hsig =>
    have hn0 : n ≠ 0 := by
      rintro rfl
      rw [Nat.zero_mul] at hvalue
      exact Nat.mul_ne_zero (Nat.mul_ne_zero (by decide) hsig) hu.ne' hvalue
    obtain ⟨hscale, hc, hvalue0⟩ := RoundingInterval.shortest_of_value hvalue (contains_value hsig)
      (places_le_scaleBound hn0 h)
    dsimp only
    generalize x.roundingInterval.shortest x.roundingInterval.scaleBound = r at hscale hc hvalue0
    obtain ⟨m, scale⟩ := r
    obtain ⟨k, rfl⟩ : ∃ k, scale = k + x.places := ⟨scale - x.places, by omega⟩
    have hm : m * 10 ^ k = n := by
      refine eq_of_contains h hn ?_ fun hplaces => ?_
      · rwa [show m * 10 ^ k * (4 * 10 ^ x.places) = m * (4 * 10 ^ (k + x.places)) by ring]
      · rcases Nat.eq_zero_or_pos k with rfl | hk
        · left
          have hm : m = x.roundingInterval.value / 4 := hvalue0 (by rw [hplaces])
          rw [hm, hvalue, hplaces]
          omega
        · exact .inr (Dvd.dvd.mul_left (dvd_pow_self 10 hk.ne') m)
    have hexp : x.unitExponent + (k + x.places : ℕ) = k := by
      unfold unitExponent places
      omega
    show (Decimal.ofScaled m (x.unitExponent + (k + x.places : ℕ))).toRat = n
    rw [Decimal.toRat_ofScaled, hexp, zpow_natCast, ← hm]
    push_cast
    rfl

end Binary64

end Numerals
