import Numerals.Proofs.Decimal.Shortest

/-!
# Decimals that read back

`Binary64.Reads` says which magnitudes read as a floating-point number: those that no other number
is nearer to, with ties to the even significand. `Binary64.IsShortest` says which decimal of them is
the shortest, without saying how it is found.

Up to 2^53 every whole number is a floating-point number (`exists_absValue_eq`), so what reads as
one is at most half a unit away from it, but for 2^53 itself, whose next neighbour is two units
above (`Reads.near`). A decimal that near has as many digits (`Reads.length_digits_le`), so that the
only shortest one is the numeral of the number (`isShortest_iff_of_whole`).
-/

namespace Numerals

/-! ## Digits of whole numbers -/

namespace Decimal

theorem Canonical.length_digits_le {x : Decimal} (hx : x.Canonical) {n : ℕ} (h : x.toRat = n) :
    x.digits.length ≤ (Nat.digits 10 n).length := by
  have hwhole : x.digits.length ≤ x.point.toNat := by
    have hnil := (fractionDigits_eq_nil_iff hx).2 (by rw [h, Int.fract_natCast])
    exact List.drop_eq_nil_iff.1 (List.append_eq_nil_iff.1 hnil).2
  have hlength : x.integerDigits.length = x.point.toNat := by
    rw [integerDigits, List.length_append, List.length_take, List.length_replicate]
    omega
  have hvalue : Digits.toNat x.integerDigits = n := by
    rw [toNat_integerDigits, h, Nat.floor_natCast]
  rwa [← hvalue, Digits.length_digits_toNat (head?_integerDigits hx), hlength]

theorem canonical_ofNat (n : ℕ) : (ofNat n).Canonical := canonical_ofScaled n 0

theorem Canonical.eq_ofNat_iff {x : Decimal} (hx : x.Canonical) {n : ℕ} :
    x = ofNat n ↔ x.toRat = n :=
  ⟨fun h => by rw [h, toRat_ofNat],
    fun h => hx.eq_of_toRat_eq (canonical_ofNat n) (by rw [h, toRat_ofNat])⟩

theorem exists_natCast_of_length_le {x : Decimal} (h : (x.digits.length : ℤ) ≤ x.point) :
    ∃ m : ℕ, x.toRat = m := by
  obtain ⟨k, hk⟩ := Int.eq_ofNat_of_zero_le (Int.sub_nonneg_of_le h)
  exact ⟨Digits.toNat x.digits * 10 ^ k, by rw [toRat, hk]; push_cast; rfl⟩

theorem ten_mul_toRat_le {x : Decimal} (h : x.point < x.digits.length) :
    10 * x.toRat ≤ Digits.toNat x.digits := by
  have hpow : (10 : ℚ) ^ (x.point - x.digits.length) * 10 ≤ 1 := by
    rw [← zpow_add_one₀ (by norm_num)]
    exact zpow_le_one_of_nonpos₀ (by norm_num) (by omega)
  calc 10 * x.toRat = Digits.toNat x.digits * (10 ^ (x.point - x.digits.length) * 10) := by
        rw [toRat]
        ring
    _ ≤ Digits.toNat x.digits := mul_le_of_le_one_right (Nat.cast_nonneg _) hpow

end Decimal

/-- Of two numbers the nearer one is on the same side of their middle. -/
theorem le_middle_of_abs_sub_le {q a b : ℚ} (hab : a < b) (h : |q - a| ≤ |q - b|) :
    2 * q ≤ a + b := by
  rcases abs_cases (q - a) with ha | ha <;> rcases abs_cases (q - b) with hb | hb <;> linarith

theorem middle_le_of_abs_sub_le {q a b : ℚ} (hab : b < a) (h : |q - a| ≤ |q - b|) :
    a + b ≤ 2 * q := by
  rcases abs_cases (q - a) with ha | ha <;> rcases abs_cases (q - b) with hb | hb <;> linarith

namespace Binary64

/-! ## Magnitudes -/

/-- The magnitude of a finite number. -/
def absValue (x : Binary64) : ℚ := x.significand * 2 ^ x.exponent

theorem natAbs?_eq_some_iff {x : Binary64} {n : ℕ} :
    x.natAbs? = some n ↔ x.isFinite = true ∧ x.absValue = n := by
  unfold natAbs? absValue
  cases x.isFinite with
  | false => simp
  | true =>
    simp only [Bool.not_true, Bool.false_eq_true, if_false, true_and, Nat.pow_eq]
    by_cases he : 0 ≤ x.exponent
    · obtain ⟨k, hk⟩ := Int.eq_ofNat_of_zero_le he
      rw [if_pos he, hk, Int.toNat_natCast, zpow_natCast, Option.some.injEq]
      exact_mod_cast Iff.rfl
    · obtain ⟨k, hk⟩ := Int.eq_ofNat_of_zero_le (show 0 ≤ -x.exponent by omega)
      have hpos : 0 < 2 ^ k := by positivity
      have hwhole : (x.significand : ℚ) * 2 ^ x.exponent = n ↔ x.significand = n * 2 ^ k := by
        rw [show x.exponent = -(k : ℤ) by omega, zpow_neg, zpow_natCast, ← div_eq_mul_inv,
          div_eq_iff (by positivity)]
        exact_mod_cast Iff.rfl
      rw [if_neg he, hk, Int.toNat_natCast, hwhole]
      constructor
      · intro h
        split at h
        · next hmod =>
          cases h
          exact (Nat.div_mul_cancel (Nat.dvd_of_mod_eq_zero hmod)).symm
        · cases h
      · intro h
        rw [h, Nat.mul_mod_left, if_pos rfl, Nat.mul_div_cancel _ hpos]

/-- A significand with its leading bit, at any exponent that finite numbers have. -/
theorem exists_absValue_eq_of_normal {s : ℕ} {e : ℤ} (hs : 2 ^ 52 ≤ s) (hs' : s < 2 ^ 53)
    (he : -1074 ≤ e) (he' : e ≤ 971) :
    ∃ y : Binary64, y.isFinite = true ∧ y.absValue = s * 2 ^ e := by
  obtain ⟨k, rfl⟩ : ∃ k : ℕ, e = k - 1074 := ⟨(e + 1074).toNat, by omega⟩
  let y : Binary64 := ⟨false, ⟨k + 1, by omega⟩, ⟨s - 2 ^ 52, by omega⟩⟩
  have hfinite : y.isFinite = true := decide_eq_true fun h => by
    have : k + 1 = 2047 := congrArg Fin.val h
    omega
  have hsignificand : y.significand = s := by
    have hfield : y.exponentField ≠ 0 := fun h => by cases congrArg Fin.val h
    rw [significand, if_neg hfield]
    show 0x10000000000000 + (s - 2 ^ 52) = s
    omega
  have hexponent : y.exponent = k - 1074 := by
    rw [exponent, show y.exponentField.val = k + 1 from rfl]
    omega
  exact ⟨y, hfinite, by rw [absValue, hsignificand, hexponent]⟩

/-- Up to 2^53 every whole number is a floating-point number. -/
theorem exists_absValue_eq {m : ℕ} (hm : m ≤ 2 ^ 53) :
    ∃ y : Binary64, y.isFinite = true ∧ y.absValue = m := by
  rcases Nat.eq_zero_or_pos m with rfl | hpos
  · exact ⟨⟨false, 0, 0⟩, rfl, by simp [absValue, significand]⟩
  rcases hm.lt_or_eq with hlt | rfl
  · have hlog := Nat.log2_self_le hpos.ne'
    have hlog' := Nat.lt_log2_self (n := m)
    obtain ⟨k, hk⟩ := Nat.exists_eq_add_of_le
      (show m.log2 ≤ 52 from Nat.le_of_lt_succ ((Nat.log2_lt hpos.ne').2 hlt))
    -- the number is shifted until its leading bit is that of a significand
    obtain ⟨y, hy, hvalue⟩ := exists_absValue_eq_of_normal (s := m * 2 ^ k) (e := -k)
      (by rw [hk, pow_add]; exact Nat.mul_le_mul_right _ hlog)
      (by
        rw [show 53 = m.log2 + 1 + k by omega, pow_add]
        exact Nat.mul_lt_mul_of_pos_right hlog' (by positivity))
      (by omega) (by omega)
    refine ⟨y, hy, ?_⟩
    rw [hvalue, zpow_neg, zpow_natCast, Nat.cast_mul, Nat.cast_pow, Nat.cast_ofNat,
      mul_inv_cancel_right₀ (by positivity)]
  · obtain ⟨y, hy, hvalue⟩ := exists_absValue_eq_of_normal (s := 2 ^ 52) (e := 1) (by norm_num)
      (by norm_num) (by norm_num) (by norm_num)
    exact ⟨y, hy, by rw [hvalue]; norm_num⟩

/-! ## Reading -/

/-- The magnitude `q` reads as that of `x`: no finite number is nearer, and where one is as near,
the significand of `x` is even. From half a unit above the greatest finite number on, nothing reads
as finite. -/
structure Reads (x : Binary64) (q : ℚ) : Prop where
  finite : x.isFinite = true
  nearest : ∀ y : Binary64, y.isFinite = true → |q - x.absValue| ≤ |q - y.absValue|
  even : ∀ y : Binary64, y.isFinite = true → y.absValue ≠ x.absValue →
    |q - x.absValue| = |q - y.absValue| → x.significand % 2 = 0
  bounded : q < (2 ^ 54 - 1) * 2 ^ 970

/-- The shortest decimal that reads as the magnitude of `x`: it has the fewest digits, and no other
with as few is nearer. -/
structure IsShortest (x : Binary64) (d : Decimal) : Prop where
  canonical : d.Canonical
  reads : x.Reads d.toRat
  fewest : ∀ e : Decimal, e.Canonical → x.Reads e.toRat → d.digits.length ≤ e.digits.length
  nearest : ∀ e : Decimal, e.Canonical → x.Reads e.toRat → e.digits.length = d.digits.length →
    |d.toRat - x.absValue| ≤ |e.toRat - x.absValue|

section
variable {x : Binary64} {n : ℕ} (hvalue : x.absValue = n) (hn : n ≤ 2 ^ 53)
include hvalue hn

theorem reads_natCast (hfinite : x.isFinite = true) : x.Reads n where
  finite := hfinite
  nearest y _ := by
    rw [hvalue, sub_self, abs_zero]
    exact abs_nonneg _
  even y _ hne heq := by
    rw [hvalue, sub_self, abs_zero, eq_comm, abs_eq_zero, sub_eq_zero] at heq
    exact absurd (heq.symm.trans hvalue.symm) hne
  bounded := by
    have hle : (n : ℚ) ≤ 2 ^ 53 := by exact_mod_cast hn
    calc (n : ℚ) < 2 ^ 54 - 1 := by linarith
      _ ≤ (2 ^ 54 - 1) * 2 ^ 970 :=
        le_mul_of_one_le_right (by norm_num) (one_le_pow₀ (by norm_num))

/-- What reads as a whole number is at most half a unit away, or a unit above 2^53. -/
theorem Reads.near {q : ℚ} (h : x.Reads q) (hq : 0 ≤ q) :
    2 * n ≤ 2 * q + 1 ∧ (2 * q ≤ 2 * n + 1 ∨ n = 2 ^ 53 ∧ q ≤ n + 1) := by
  constructor
  · rcases Nat.eq_zero_or_pos n with rfl | hpos
    · rw [Nat.cast_zero]
      linarith
    · obtain ⟨k, rfl⟩ := Nat.exists_eq_succ_of_ne_zero hpos.ne'
      obtain ⟨y, hy, hk⟩ := exists_absValue_eq (m := k) (by omega)
      have hnearest := h.nearest y hy
      rw [hvalue, hk] at hnearest
      push_cast at hnearest ⊢
      linarith [middle_le_of_abs_sub_le (by linarith) hnearest]
  · rcases hn.lt_or_eq with hlt | rfl
    · obtain ⟨y, hy, hk⟩ := exists_absValue_eq (m := n + 1) hlt
      have hnearest := h.nearest y hy
      rw [hvalue, hk] at hnearest
      push_cast at hnearest
      exact .inl (by linarith [le_middle_of_abs_sub_le (by linarith) hnearest])
    · obtain ⟨y, hy, hk⟩ := exists_absValue_eq_of_normal (s := 2 ^ 52 + 1) (e := 1) (by norm_num)
        (by norm_num) (by norm_num) (by norm_num)
      have hnearest := h.nearest y hy
      rw [hvalue, hk] at hnearest
      refine .inr ⟨rfl, ?_⟩
      push_cast at hnearest ⊢
      linarith [le_middle_of_abs_sub_le (by norm_num) hnearest]

theorem Reads.length_digits_le {d : Decimal} (h : x.Reads d.toRat) (hd : d.Canonical) :
    (Decimal.ofNat n).digits.length ≤ d.digits.length := by
  obtain ⟨hlower, hupper⟩ := h.near hvalue hn d.toRat_nonneg
  rcases le_or_gt (d.digits.length : ℤ) d.point with hplaces | hplaces
  · -- without fraction digits it is the number, or the next after the bound
    obtain ⟨m, hm⟩ := Decimal.exists_natCast_of_length_le hplaces
    rw [hm] at hlower hupper
    have hlower : 2 * n ≤ 2 * m + 1 := by exact_mod_cast hlower
    have hor : m = n ∨ n = 2 ^ 53 ∧ m = 2 ^ 53 + 1 := by
      rcases hupper with hupper | ⟨rfl, hupper⟩
      · have hupper : 2 * m ≤ 2 * n + 1 := by exact_mod_cast hupper
        omega
      · have hupper : m ≤ 2 ^ 53 + 1 := by exact_mod_cast hupper
        omega
    rw [hd.eq_ofNat_iff.2 hm]
    rcases hor with rfl | ⟨rfl, rfl⟩
    · exact Nat.le_refl _
    · decide +kernel
  · -- with fraction digits it has as many digits as the number has places
    have hten := Decimal.ten_mul_toRat_le hplaces
    have hbound : 10 * n ≤ Digits.toNat d.digits + 5 := by
      have : (10 * n : ℚ) ≤ Digits.toNat d.digits + 5 := by linarith
      exact_mod_cast this
    have hlt := Digits.toNat_lt d.digits
    have hle := (Decimal.canonical_ofNat n).length_digits_le (Decimal.toRat_ofNat n)
    by_contra! hshort
    have hn0 : n ≠ 0 := by
      rintro rfl
      rw [Nat.digits_zero, List.length_nil] at hle
      omega
    have hpow : 10 ^ (d.digits.length + 1) ≤ 10 * n :=
      (Nat.pow_le_pow_right (by decide) (hshort.trans_le hle)).trans
        (Nat.base_pow_length_digits_le 10 n (by decide) hn0)
    have hone : 0 < 10 ^ d.digits.length := by positivity
    rw [pow_succ] at hpow
    omega

/-- The shortest decimal of a whole number is its numeral, and no other decimal is. -/
theorem isShortest_iff_of_whole (hfinite : x.isFinite = true) {d : Decimal} :
    x.IsShortest d ↔ d = .ofNat n := by
  have hreads : x.Reads (Decimal.ofNat n).toRat := by
    rw [Decimal.toRat_ofNat]
    exact reads_natCast hvalue hn hfinite
  have hdist : |(Decimal.ofNat n).toRat - x.absValue| = 0 := by
    rw [Decimal.toRat_ofNat, hvalue, sub_self, abs_zero]
  constructor
  · intro h
    have hlength := le_antisymm (h.reads.length_digits_le hvalue hn h.canonical)
      (h.fewest _ (Decimal.canonical_ofNat n) hreads)
    have hnearest := h.nearest _ (Decimal.canonical_ofNat n) hreads hlength
    rw [hdist, abs_nonpos_iff, sub_eq_zero, hvalue] at hnearest
    exact h.canonical.eq_ofNat_iff.2 hnearest
  · rintro rfl
    refine ⟨Decimal.canonical_ofNat n, hreads, fun e he hread => ?_, fun e _ _ _ => ?_⟩
    · exact hread.length_digits_le hvalue hn he
    · rw [hdist]
      exact abs_nonneg _

end

theorem magnitude_of_whole {x : Binary64} {n : ℕ} (h : x.natAbs? = some n) (hn : n ≤ 2 ^ 53) :
    x.magnitude = .ofNat n := by
  have hcanonical : x.magnitude.Canonical := by
    unfold magnitude
    split
    · exact Decimal.canonical_zero
    · exact Decimal.canonical_ofScaled _ _
  exact hcanonical.eq_ofNat_iff.2 (toRat_magnitude h hn)

end Binary64

end Numerals
