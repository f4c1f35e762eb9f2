import Numerals.Proofs.Decimal.Rounding

/-!
# Rounding in place

Digits can be rounded where they stand: the digits at the cut are read by their index, positions
are 64-bit words, and one more unit is added from the last digit that stays to the first
(`Decimal.roundInPlace`). `Decimal.roundInPlace_eq` says that no index and no word is ever out of
range, and that the result is the rounded magnitude. `Decimal.round_exact` says which magnitude that
is: a multiple of the last unit that stays, and which of two, by the rule of each mode.
-/

namespace Numerals

/-! ## Words -/

/-- The largest position that a 64-bit word holds. -/
def lastPosition : Int := 0x7FFFFFFFFFFFFFFF

/-- A position, if a word holds it. -/
def word? (n : Int) : Option Int :=
  if -lastPosition - 1 ≤ n ∧ n ≤ lastPosition then some n else none

/-- The sum of two positions, or the nearest one that a word holds. -/
def addSaturated (m n : Int) : Int := max (-lastPosition - 1) (min lastPosition (m + n))

theorem word?_of_lt {n : Int} (h : n.natAbs < 2 ^ 63) : word? n = some n := by
  apply if_pos
  unfold lastPosition
  omega

namespace RoundingMode

/-- The decision on a rounding by the first digit that is left out, and by whether there is any
other than zero after it. -/
def roundsUp (mode : RoundingMode) (first : Digit) (more odd negative : Bool) : Option Bool :=
  match mode with
  | halfEven => some (5 < first || first = 5 && (more || odd))
  | halfUp => some (5 ≤ first)
  | halfDown => some (5 < first || first = 5 && more)
  | up => some true
  | down => some false
  | ceiling => some !negative
  | floor => some negative
  | unnecessary => none

theorem roundsUp_eq (mode : RoundingMode) (d : Digit) (ds : List Digit) (odd negative : Bool) :
    mode.roundsUp d (ds.any (· ≠ 0)) odd negative =
      mode.increments (Decimal.compareHalf (d :: ds)) odd negative := by
  have hmore : ds.any (· ≠ 0) = !ds.all (· = 0) := by
    rw [List.not_all_eq_any_not]
    simp
  rw [Decimal.compareHalf, hmore]
  generalize ds.all (· = 0) = zeros
  rcases lt_trichotomy d 5 with h | h | h
  · have hne : d ≠ 5 := h.ne
    rw [compare_lt_iff_lt.2 h]
    cases mode <;> simp [roundsUp, increments, h.not_gt, h.not_ge, hne]
  · subst h
    cases zeros <;> cases mode <;> simp [roundsUp, increments]
  · rw [compare_gt_iff_gt.2 h]
    cases mode <;> simp [roundsUp, increments, h, h.le]

end RoundingMode

namespace Decimal

open Digits

/-! ## Digits by their index -/

/-- The digits from an index on, which may be the one after the last. -/
def slice? (ds : List Digit) (i : Nat) : Option (List Digit) :=
  if i ≤ ds.length then some (ds.drop i) else none

/-- The first digit after the cut, and whether there is any other than zero after that. A cut in
front of all digits leaves out an implied zero first. -/
def readCut (ds : List Digit) (keep : Int) : Option (Digit × Bool) :=
  if 0 ≤ keep then do
    let first ← ds[keep.toNat]?
    let rest ← slice? ds (keep.toNat + 1)
    return (first, rest.any (· ≠ 0))
  else some (0, true)

/-- Whether the last of the digits that stay is odd. -/
def readOdd (ds : List Digit) (keep : Nat) : Option Bool :=
  if 0 < keep then ds[keep - 1]?.map fun d => d.val % 2 = 1 else some false

/-- Adds one to the digits before an index, starting with the last of them. The answer tells
whether it is carried beyond the first digit. -/
def carry (ds : List Digit) : Nat → Option (Bool × List Digit)
  | 0 => some (true, ds)
  | i + 1 => do
    let d ← ds[i]?
    if d = 9 then carry (ds.set i 0) i else return (false, ds.set i (d + 1))

/-- The magnitude 0.d₁…dₙ · 10^point, where d₁ is not zero. -/
def ofSignificant (ds : List Digit) (point : Int) : Decimal :=
  if trimEnd ds = [] then zero else ⟨trimEnd ds, point⟩

/-- The number of digits before the cut. -/
def cutAt (x : Decimal) (maxFraction : Nat) : Int :=
  addSaturated x.point (min maxFraction lastPosition)

/-- The digits before the cut, and one unit of the last of them more. If there is none, the unit is
all that is left. -/
def bump (x : Decimal) (keep : Int) : Option Decimal :=
  if keep ≤ 0 then do
    let point ← word? (x.point - keep)
    let point ← word? (point + 1)
    return ofSignificant [1] point
  else do
    let (beyond, ds) ← carry (x.digits.take keep.toNat) keep.toNat
    if beyond then
      let point ← word? (x.point + 1)
      return ofSignificant (1 :: ds) point
    else return ofSignificant ds x.point

/-- Rounding in place: whether the mode allows it, and the magnitude afterwards. `none` stands for
an index or a word out of range. -/
def roundInPlace (x : Decimal) (maxFraction : Nat) (mode : RoundingMode) (negative : Bool) :
    Option (Bool × Decimal) :=
  let keep := x.cutAt maxFraction
  if x.digits.length ≤ keep then some (true, x)
  else do
    let (first, more) ← readCut x.digits keep
    let odd ← readOdd x.digits keep.toNat
    match mode.roundsUp first more odd negative with
    | none => return (false, x)
    | some true => return (true, ← x.bump keep)
    | some false => return (true, ofSignificant (x.digits.take keep.toNat) x.point)

/-! ## Canonical results -/

theorem ofDigits_eq_ofScaled (ds : List Digit) (point : Int) :
    ofDigits ds point = ofScaled (toNat ds) (point - ds.length) := by
  apply (canonical_ofDigits ds point).eq_of_toRat_eq (canonical_ofScaled _ _)
  rw [toRat_ofDigits, toRat_ofScaled]

theorem ofSignificant_eq {ds : List Digit} (h : ds.head? ≠ some 0) (point : Int) :
    ofSignificant ds point = ofScaled (toNat ds) (point - ds.length) := by
  rw [← ofDigits_eq_ofScaled]
  cases ds with
  | nil => rfl
  | cons d ds =>
    have hd : d ≠ 0 := by simpa using h
    have htrim : trimEnd (d :: ds) ≠ [] := by
      intro hnil
      have hhead := @head?_trimEnd d ds hd
      rw [hnil] at hhead
      cases hhead
    simp [ofSignificant, ofDigits, htrim, hd]

/-! ## What is read -/

theorem readOdd_eq {ds : List Digit} {keep : Nat} (h : keep ≤ ds.length) :
    readOdd ds keep = some (decide (toNat (ds.take keep) % 2 = 1)) := by
  unfold readOdd
  cases keep with
  | zero => rfl
  | succ k =>
    have hk : k < ds.length := h
    have hparity : (10 * toNat (ds.take k) + ds[k].val) % 2 = ds[k].val % 2 := by omega
    rw [if_pos (Nat.succ_pos k), Nat.add_sub_cancel, List.getElem?_eq_getElem hk,
      List.take_succ_eq_append_getElem hk, toNat_concat, hparity]
    rfl

theorem readCut_eq {x : Decimal} {keep : Int} (h : keep < x.digits.length) :
    ∃ first more, readCut x.digits keep = some (first, more) ∧
      ∀ (mode : RoundingMode) odd negative, mode.roundsUp first more odd negative =
        mode.increments (compareHalf (x.dropped keep)) odd negative := by
  unfold readCut
  by_cases h0 : 0 ≤ keep
  · have hlt : keep.toNat < x.digits.length := by omega
    have hdropped : x.dropped keep = x.digits[keep.toNat] :: x.digits.drop (keep.toNat + 1) := by
      rw [dropped, Int.toNat_of_nonpos (by omega), List.replicate_zero, List.nil_append,
        List.drop_eq_getElem_cons hlt]
    rw [if_pos h0, List.getElem?_eq_getElem hlt, slice?, if_pos (Nat.succ_le_of_lt hlt)]
    refine ⟨_, _, rfl, fun mode odd negative => ?_⟩
    rw [hdropped, mode.roundsUp_eq]
  · obtain ⟨zeros, hzeros⟩ : ∃ n, (-keep).toNat = n + 1 := ⟨(-keep).toNat - 1, by omega⟩
    rw [if_neg h0]
    refine ⟨0, true, rfl, fun mode odd negative => ?_⟩
    rw [dropped, hzeros, List.replicate_succ, List.cons_append, compareHalf]
    cases mode <;> rfl

/-! ## One unit more -/

/-- Adding one to some digits in front of others counts one more, or is carried to a unit of its
own. -/
theorem carry_eq (ds rest : List Digit) :
    ∃ beyond es, carry (ds ++ rest) ds.length = some (beyond, es ++ rest) ∧
      es.length = ds.length ∧ toNat (if beyond then 1 :: es else es) = toNat ds + 1 := by
  have hnext : ∀ d : Digit, d ≠ 9 → (d + 1).val = d.val + 1 := by decide
  -- from the end, as the carry runs: a nine becomes a zero of what follows
  induction ds using List.reverseRecOn generalizing rest with
  | nil => exact ⟨true, [], rfl, rfl, rfl⟩
  | append_singleton ds d ih =>
    have hget : (ds ++ d :: rest)[ds.length]? = some d := by simp
    have hset (e : Digit) : (ds ++ d :: rest).set ds.length e = ds ++ e :: rest := by simp
    rw [List.length_append, List.length_singleton, List.append_assoc, List.singleton_append, carry,
      hget]
    change ∃ beyond es, (if d = 9 then carry _ _ else _) = _ ∧ _
    by_cases hd : d = 9
    · obtain ⟨beyond, es, hcarry, hlen, hval⟩ := ih (0 :: rest)
      rw [if_pos hd, hset, hcarry]
      refine ⟨beyond, es ++ [0], by simp, by simp [hlen], ?_⟩
      have happend : (if beyond then 1 :: (es ++ [0]) else es ++ [0]) =
          (if beyond then 1 :: es else es) ++ [0] := by
        cases beyond <;> rfl
      rw [happend, toNat_concat, toNat_concat, hval, hd]
      show 10 * (toNat ds + 1) + 0 = 10 * toNat ds + 9 + 1
      omega
    · rw [if_neg hd, hset]
      refine ⟨false, ds ++ [d + 1], by simp, by simp, ?_⟩
      rw [if_neg Bool.false_ne_true, toNat_concat, toNat_concat, hnext d hd, Nat.add_assoc]

theorem head?_ne_zero {ds : List Digit} (h : 10 ^ (ds.length - 1) ≤ toNat ds) :
    ds.head? ≠ some 0 := by
  cases ds with
  | nil => simp
  | cons d ds =>
    rintro ⟨⟩
    have hlt := toNat_lt ds
    rw [toNat_cons] at h
    simp at h
    omega

theorem ofScaled_zero (exponent : Int) : ofScaled 0 exponent = zero := by
  simp [ofScaled, ofDigits, Digits.ofNat_zero]

/-- Where no digit stays, the unit is all that is left. -/
theorem bump_of_nonpos {x : Decimal} {keep : Int} (h : keep ≤ 0) (hpoint : x.point.natAbs < 2 ^ 62)
    (hle : x.point ≤ keep) : x.bump keep = some (ofScaled 1 (x.point - keep)) := by
  have hexp : x.point - keep + 1 - [(1 : Digit)].length = x.point - keep := by simp
  rw [bump, if_pos h, word?_of_lt (by omega)]
  change (do let point ← word? (x.point - keep + 1); return ofSignificant [1] point) = _
  rw [word?_of_lt (by omega)]
  change some (ofSignificant [1] (x.point - keep + 1)) = _
  rw [ofSignificant_eq (by simp), hexp]
  rfl

section
variable {x : Decimal} (hx : x.Canonical) {keep : Int} (hkeep : keep ≤ x.digits.length)
include hx hkeep

theorem take_spec (h : 0 < keep) :
    (x.digits.take keep.toNat).length = keep.toNat ∧ (x.digits.take keep.toNat).head? ≠ some 0 := by
  refine ⟨by rw [List.length_take]; omega, ?_⟩
  rw [List.head?_take, if_neg (by omega)]
  exact hx.head

theorem ofSignificant_take :
    ofSignificant (x.digits.take keep.toNat) x.point =
      ofScaled (toNat (x.digits.take keep.toNat)) (x.point - keep) := by
  rcases Int.lt_or_le 0 keep with h | h
  · obtain ⟨hlen, hhead⟩ := take_spec hx hkeep h
    rw [ofSignificant_eq hhead, hlen, Int.toNat_of_nonneg h.le]
  · rw [Int.toNat_of_nonpos h, List.take_zero, toNat_nil, ofScaled_zero]
    rfl

theorem bump_of_pos (h : 0 < keep) (hpoint : x.point.natAbs < 2 ^ 62) :
    x.bump keep = some (ofScaled (toNat (x.digits.take keep.toNat) + 1) (x.point - keep)) := by
  obtain ⟨hlen, hhead⟩ := take_spec hx hkeep h
  obtain ⟨beyond, es, hcarry, heslen, hval⟩ := carry_eq (x.digits.take keep.toNat) []
  rw [List.append_nil, List.append_nil, hlen] at hcarry
  rw [bump, if_neg (by omega), hcarry, ← hval]
  cases beyond with
  | true =>
    have hexp : x.point + 1 - (1 :: es).length = x.point - keep := by
      rw [List.length_cons]
      omega
    have hone : (1 :: es).head? ≠ some 0 := by simp
    change (do let point ← word? (x.point + 1); return ofSignificant (1 :: es) point) = _
    rw [word?_of_lt (by omega)]
    change some (ofSignificant (1 :: es) (x.point + 1)) = _
    rw [ofSignificant_eq hone, hexp]
    rfl
  | false =>
    -- not carried beyond the first digit, which was not zero and did not become less
    have hes : es.head? ≠ some 0 := by
      obtain ⟨d, ds, hds⟩ := List.exists_cons_of_length_pos (l := x.digits.take keep.toNat)
        (by omega)
      rw [hds] at hhead hval heslen
      have hle : 10 ^ ds.length ≤ toNat (d :: ds) := by
        apply le_toNat
        simpa using hhead
      apply head?_ne_zero
      rw [heslen, show toNat es = toNat (d :: ds) + 1 from hval]
      exact Nat.le_succ_of_le hle
    have hexp : x.point - es.length = x.point - keep := by omega
    change some (ofSignificant es x.point) = some (ofScaled (toNat es) (x.point - keep))
    rw [ofSignificant_eq hes, hexp]

/-- With one unit of the last digit more. -/
theorem bump_eq (hpoint : x.point.natAbs < 2 ^ 62) (hle : x.point ≤ keep) :
    x.bump keep = some (ofScaled (toNat (x.digits.take keep.toNat) + 1) (x.point - keep)) := by
  rcases Int.lt_or_le 0 keep with h | h
  · exact bump_of_pos hx hkeep h hpoint
  · rw [bump_of_nonpos h hpoint hle, Int.toNat_of_nonpos h, List.take_zero]
    rfl

end

/-! ## In place -/

/-- A cut that words cannot hold lies behind all digits. -/
theorem cutAt_spec {x : Decimal} (hpoint : x.point.natAbs < 2 ^ 62)
    (hlen : x.digits.length < 2 ^ 62) (maxFraction : Nat) :
    (x.digits.length ≤ x.cutAt maxFraction ↔ x.digits.length ≤ x.point + maxFraction) ∧
      (x.point + maxFraction < x.digits.length → x.cutAt maxFraction = x.point + maxFraction) := by
  unfold cutAt addSaturated lastPosition
  omega

/-- Rounding in place never reads a digit that is not there. It gives the rounded magnitude, or
leaves the magnitude as it is where the mode refuses. -/
theorem roundInPlace_eq {x : Decimal} (hx : x.Canonical) (hlen : x.digits.length < 2 ^ 62)
    (hpoint : x.point.natAbs < 2 ^ 62) (maxFraction : Nat) (mode : RoundingMode)
    (negative : Bool) :
    x.roundInPlace maxFraction mode negative =
      some ((x.round maxFraction mode negative).isSome,
        (x.round maxFraction mode negative).getD x) := by
  obtain ⟨hle, heq⟩ := cutAt_spec hpoint hlen maxFraction
  unfold roundInPlace round
  dsimp only
  by_cases h : x.digits.length ≤ x.point + maxFraction
  · rw [if_pos (hle.2 h), if_pos h]
    rfl
  · have hlt : x.point + maxFraction < x.digits.length := by omega
    rw [if_neg (mt hle.1 h), if_neg h, heq hlt]
    have hexp : x.point - (x.point + maxFraction) = -maxFraction := by omega
    have hdown := ofSignificant_take hx hlt.le
    have hup := bump_eq hx hlt.le hpoint (by omega)
    generalize x.point + (maxFraction : Int) = keep at *
    obtain ⟨first, more, hcut, hmode⟩ := readCut_eq hlt
    rw [hcut, readOdd_eq (by omega)]
    change (match mode.roundsUp first more (decide _) negative with
      | none => some (false, x)
      | some true => do return (true, ← x.bump keep)
      | some false => some (true, ofSignificant (x.digits.take keep.toNat) x.point)) = _
    rw [hmode, hup, hdown, hexp]
    cases mode.increments _ _ negative with
    | none => rfl
    | some up => cases up <;> rfl

end Decimal

/-! ## Exact rounding -/

/-- Whether a magnitude between `n` and `n + 1` units goes to the larger, where it has `rest` over
the smaller, `half` is half a unit, and `negative` tells of the number that has the magnitude. -/
def RoundingMode.Enlarges (mode : RoundingMode) (n : ℕ) (rest half : ℚ) (negative : Bool) : Prop :=
  match mode with
  | up => True
  | down => False
  | ceiling => negative = false
  | floor => negative = true
  | halfUp => half ≤ rest
  | halfDown => half < rest
  | halfEven => half < rest ∨ rest = half ∧ Odd n
  | unnecessary => False

theorem RoundingMode.increments_eq_some {mode : RoundingMode} {n : ℕ} {fract half u : ℚ}
    (hu : 0 < u) {negative up : Bool}
    (h : mode.increments (compare fract half) (n % 2 = 1) negative = some up) :
    up = true ↔ mode.Enlarges n (fract * u) (half * u) negative := by
  have hlt : half * u < fract * u ↔ half < fract := mul_lt_mul_iff_left₀ hu
  have hle : half * u ≤ fract * u ↔ half ≤ fract := mul_le_mul_iff_left₀ hu
  have heq : fract * u = half * u ↔ fract = half := mul_left_inj' hu.ne'
  have hgt : compare fract half = .gt ↔ half < fract := compare_gt_iff_gt
  have hmid : compare fract half = .eq ↔ fract = half := compare_eq_iff_eq
  have hge : compare fract half ≠ .lt ↔ half ≤ fract := by rw [Ne, compare_lt_iff_lt, not_lt]
  cases mode with
  | halfEven => cases h; simp [Enlarges, hlt, heq, hgt, hmid, Nat.odd_iff]
  | halfUp => cases h; simpa only [Enlarges, hle, decide_eq_true_iff] using hge
  | halfDown => cases h; simp [Enlarges, hlt, hgt]
  | up | down | ceiling | floor => cases h; simp [Enlarges]
  | unnecessary => cases h

namespace Decimal

/-- **Rounding is exact.** Let `u` be the unit of the last fraction digit that may stay. A multiple
of `u` stays as it is. Any other magnitude is refused by the mode that never rounds, and goes to
the multiple of `u` below it or to the next one, whichever the mode says. Done in place, no index
and no word is out of range, and what is refused stays as it is. -/
theorem round_exact {x : Decimal} (hx : x.Canonical) (maxFraction : Nat) (mode : RoundingMode)
    (negative : Bool) {u : ℚ} (hu : u = 1 / 10 ^ maxFraction) :
    ((∃ k : ℤ, x.toRat = k * u) → x.round maxFraction mode negative = some x) ∧
    ((¬∃ k : ℤ, x.toRat = k * u) →
      (mode = .unnecessary → x.round maxFraction mode negative = none) ∧
      (mode ≠ .unnecessary →
        ∃ z n, x.round maxFraction mode negative = some z ∧ z.Canonical ∧ n = ⌊x.toRat / u⌋₊ ∧
          (mode.Enlarges n (x.toRat - n * u) (u / 2) negative → z.toRat = n * u + u) ∧
          (¬mode.Enlarges n (x.toRat - n * u) (u / 2) negative → z.toRat = n * u))) ∧
    (x.digits.length < 2 ^ 62 → x.point.natAbs < 2 ^ 62 →
      x.roundInPlace maxFraction mode negative =
        some ((x.round maxFraction mode negative).isSome,
          (x.round maxFraction mode negative).getD x)) := by
  have hpos : 0 < u := by rw [hu]; positivity
  have hunits : x.toRat / u = x.toRat * 10 ^ maxFraction := by rw [hu, div_div_eq_mul_div, div_one]
  have hwhole : (∃ k : ℤ, x.toRat = k * u) ↔ Int.fract (x.toRat / u) = 0 := by
    simp only [RoundingMode.fract_eq_zero_iff, div_eq_iff hpos.ne']
  have hround := round_eq hx maxFraction mode negative hunits
  have hnonneg : 0 ≤ x.toRat / u := div_nonneg x.toRat_nonneg hpos.le
  refine ⟨fun h => ?_, fun h => ⟨?_, fun hmode => ?_⟩, fun hlen hpoint =>
    roundInPlace_eq hx hlen hpoint maxFraction mode negative⟩
  · rw [hround, if_pos (hwhole.1 h)]
  · rintro rfl
    rw [hround, if_neg (mt hwhole.2 h)]
    rfl
  · rw [if_neg (mt hwhole.2 h)] at hround
    have hrest : x.toRat - ⌊x.toRat / u⌋₊ * u = Int.fract (x.toRat / u) * u := by
      rw [Int.fract, ← natCast_floor_eq_intCast_floor hnonneg, sub_mul, div_mul_cancel₀ _ hpos.ne']
    have hval (n : ℕ) : (ofScaled n (-maxFraction)).toRat = n * u := by
      rw [toRat_ofScaled, zpow_neg, zpow_natCast, hu, one_div]
    obtain ⟨up, hup⟩ := mode.exists_increments hmode (compare (Int.fract (x.toRat / u)) (1 / 2))
      (⌊x.toRat / u⌋₊ % 2 = 1) negative
    have henlarges := RoundingMode.increments_eq_some hpos hup
    rw [hup, Option.map_some] at hround
    rw [← hrest, one_div_mul_eq_div] at henlarges
    refine ⟨_, _, hround, canonical_ofScaled _ _, rfl, fun hlarge => ?_, fun hsmall => ?_⟩
    · rw [if_pos (henlarges.2 hlarge), hval]
      push_cast
      ring
    · rw [if_neg (mt henlarges.1 hsmall), hval]

/-- From the middle to the even neighbour, with a carry through all digits. -/
theorem round_exact_carry :
    (⟨[9, 9, 9, 5], 1⟩ : Decimal).Canonical ∧ (1 / 100 : ℚ) = 1 / 10 ^ 2 ∧
      RoundingMode.halfEven.Enlarges 999 (1 / 200) (1 / 200) false ∧
      (∃ z, (⟨[9, 9, 9, 5], 1⟩ : Decimal).round 2 .halfEven false = some z ∧ z.Canonical ∧
        z.toRat = 999 * (1 / 100) + 1 / 100) ∧
      (⟨[9, 9, 9, 5], 1⟩ : Decimal).roundInPlace 2 .halfEven false = some (true, ⟨[1], 2⟩) := by
  have hx : (⟨[9, 9, 9, 5], 1⟩ : Decimal).Canonical := ⟨by decide, by decide, by simp⟩
  have hval : (⟨[9, 9, 9, 5], 1⟩ : Decimal).toRat = 1999 * (1 / 200) := by decide +kernel
  have hu : (1 / 100 : ℚ) = 1 / 10 ^ 2 := by norm_num
  have hmiddle : RoundingMode.halfEven.Enlarges 999 (1 / 200) (1 / 200) false :=
    .inr ⟨rfl, by decide⟩
  have hnot : ¬∃ k : ℤ, (⟨[9, 9, 9, 5], 1⟩ : Decimal).toRat = k * (1 / 100) := by
    rintro ⟨k, hk⟩
    rw [hval] at hk
    have hk : (1999 : ℚ) = 2 * k := by linarith
    have hk : (1999 : ℤ) = 2 * k := by exact_mod_cast hk
    omega
  obtain ⟨-, hinexact, hplace⟩ := round_exact hx 2 .halfEven false hu
  obtain ⟨z, n, hz, hcanonical, rfl, hlarge, -⟩ := (hinexact hnot).2 (by decide)
  have hfloor : ⌊(⟨[9, 9, 9, 5], 1⟩ : Decimal).toRat / (1 / 100)⌋₊ = 999 := by decide +kernel
  rw [hfloor] at hlarge
  refine ⟨hx, hu, hmiddle, ⟨z, hz, hcanonical, ?_⟩, ?_⟩
  · have hlarge := hlarge (by rw [hval]; norm_num at hmiddle ⊢; exact hmiddle)
    exact_mod_cast hlarge
  · rw [hplace (by decide) (by decide)]
    decide +kernel

end Decimal

end Numerals
