import Numerals.Format.Rendering
import Numerals.Proofs.Decimal.Value

/-!
# The digits that are shown

`NumberBody.Shows` says which digits stand for a magnitude under given limits, without saying how
they are found. There is exactly one such body, and it is the one that is built
(`NumberBody.shows_iff`). `IsGrouping` says how digits fall into groups, and again there is only
one way (`isGrouping_iff`).
-/

namespace Numerals

open Digits

/-! ## Groups -/

/-- Digits cut into groups of `size`, counted from the right: only the first may be smaller. -/
structure IsGrouping (size : Nat) (ds : List Digit) (gs : List (List Digit)) : Prop where
  flatten : gs.flatten = ds
  first : ∀ g ∈ gs.head?, g ≠ [] ∧ g.length ≤ size
  rest : ∀ g ∈ gs.tail, g.length = size

theorem groups_cons (size : Nat) (d : Digit) (ds : List Digit) :
    groups size (d :: ds) = pushGrouped size d (groups size ds) := rfl

section
variable {size : Nat} (h : 0 < size)
include h

theorem isGrouping_groups (ds : List Digit) : IsGrouping size ds (groups size ds) := by
  induction ds with
  | nil => exact ⟨rfl, by simp [groups], by simp [groups]⟩
  | cons d ds ih =>
    obtain ⟨hflat, hfirst, hrest⟩ := ih
    rw [groups_cons]
    cases hgs : groups size ds with
    | nil =>
      rw [hgs] at hflat
      obtain rfl : [] = ds := hflat
      exact ⟨rfl, by simp [pushGrouped]; omega, by simp [pushGrouped]⟩
    | cons g gs =>
      rw [hgs] at hflat hfirst hrest
      obtain ⟨-, hle⟩ := hfirst g rfl
      rw [pushGrouped]
      split
      · next hlt =>
        refine ⟨congrArg (d :: ·) hflat, fun k hk => ?_, hrest⟩
        cases hk
        exact ⟨List.cons_ne_nil _ _, hlt⟩
      · next hge =>
        refine ⟨congrArg (d :: ·) hflat, fun k hk => ?_, fun k hk => ?_⟩
        · cases hk
          exact ⟨List.cons_ne_nil _ _, h⟩
        · rcases List.mem_cons.1 hk with rfl | hk
          · omega
          · exact hrest k hk

/-- There is one way only to group digits. -/
theorem isGrouping_iff {ds : List Digit} {gs : List (List Digit)} :
    IsGrouping size ds gs ↔ gs = groups size ds := by
  refine ⟨fun hg => ?_, fun hg => hg ▸ isGrouping_groups h ds⟩
  induction ds generalizing gs with
  | nil =>
    obtain ⟨hflat, hfirst, -⟩ := hg
    cases gs with
    | nil => rfl
    | cons g gs => exact absurd (List.append_eq_nil_iff.1 hflat).1 (hfirst g rfl).1
  | cons d ds ih =>
    obtain ⟨hflat, hfirst, hrest⟩ := hg
    cases gs with
    | nil => cases hflat
    | cons g gs =>
      obtain ⟨hne, hle⟩ := hfirst g rfl
      cases g with
      | nil => exact absurd rfl hne
      | cons e g =>
        obtain ⟨rfl, hds⟩ := List.cons_eq_cons.1 hflat
        rw [groups_cons]
        cases g with
        | nil =>
          -- the first digit is a group of its own: what follows is grouped without it
          have hgs : gs = groups size ds := by
            refine ih ⟨hds, fun k hk => ?_, fun k hk => hrest k (List.mem_of_mem_tail hk)⟩
            have hk := hrest k (List.mem_of_mem_head? hk)
            exact ⟨List.ne_nil_of_length_pos (by omega), by omega⟩
          rw [← hgs]
          cases gs with
          | nil => rfl
          | cons k gs =>
            have hk := hrest k List.mem_cons_self
            rw [pushGrouped, if_neg (by omega)]
        | cons c g =>
          have hgs : (c :: g) :: gs = groups size ds := by
            refine ih ⟨hds, fun k hk => ?_, hrest⟩
            cases hk
            exact ⟨List.cons_ne_nil _ _, Nat.le_of_succ_le hle⟩
          rw [← hgs, pushGrouped, if_pos (show (c :: g).length < size from hle)]

end

/-! ## Shown digits -/

namespace Digits

theorem toNat_drop_sub (ds : List Digit) (k : Nat) :
    toNat (ds.drop (ds.length - k)) = toNat ds % 10 ^ k := by
  rcases Nat.le_total ds.length k with h | h
  · rw [Nat.sub_eq_zero_of_le h, List.drop_zero, Nat.mod_eq_of_lt]
    exact (toNat_lt ds).trans_le (Nat.pow_le_pow_right (by decide) h)
  · have hlen : (ds.drop (ds.length - k)).length = k := by rw [List.length_drop]; omega
    have hlt := toNat_lt (ds.drop (ds.length - k))
    have hsplit := toNat_append (ds.take (ds.length - k)) (ds.drop (ds.length - k))
    rw [List.take_append_drop, hlen] at hsplit
    rw [hlen] at hlt
    rw [hsplit, Nat.mul_add_mod_of_lt hlt]

end Digits

namespace NumberBody

/-- The number of integer digits that are shown, where there is anything to show. -/
def integerCount (l : DigitLimits) (r : ℚ) : Nat :=
  max l.minInteger (min l.maxInteger (Nat.digits 10 ⌊r⌋₊).length)

/-- A body shows the magnitude `r`: the last integer digits that the limits allow, filled up with
zeros, and all fraction digits up to the last that is not zero, or more where the limits ask for
them. A body is never empty. -/
structure Shows (b : NumberBody) (l : DigitLimits) (r : ℚ) : Prop where
  integer_value : toNat b.integer = ⌊r⌋₊ % 10 ^ l.maxInteger
  integer_length : b.integer.length =
    if integerCount l r = 0 ∧ b.fraction = [] then 1 else integerCount l r
  fraction_value : (toNat b.fraction : ℚ) / 10 ^ b.fraction.length = Int.fract r
  fraction_least : l.minFraction ≤ b.fraction.length
  fraction_last : l.minFraction < b.fraction.length → b.fraction.getLast? ≠ some 0

theorem shows_ofDecimal {x : Decimal} (hx : x.Canonical) (l : DigitLimits) :
    (ofDecimal x l).Shows l x.toRat := by
  have hcount : x.integerDigits.length = (Nat.digits 10 ⌊x.toRat⌋₊).length := by
    rw [← x.toNat_integerDigits, length_digits_toNat (Decimal.head?_integerDigits hx)]
  unfold ofDecimal
  dsimp only
  generalize hcut : x.integerDigits.drop (x.integerDigits.length - l.maxInteger) = cut
  have hcutlen : cut.length = min l.maxInteger x.integerDigits.length := by
    rw [← hcut, List.length_drop]
    omega
  generalize hint : List.replicate (l.minInteger - cut.length) 0 ++ cut = integer
  generalize hfrac : x.fractionDigits ++
    List.replicate (l.minFraction - x.fractionDigits.length) 0 = fraction
  have hintval : toNat integer = ⌊x.toRat⌋₊ % 10 ^ l.maxInteger := by
    rw [← hint, toNat_append, toNat_replicate_zero, Nat.zero_mul, Nat.zero_add, ← hcut,
      toNat_drop_sub, x.toNat_integerDigits]
  have hintlen : integer.length = integerCount l x.toRat := by
    rw [integerCount, ← hcount, ← hint, List.length_append, List.length_replicate, hcutlen]
    omega
  have hfracval : (toNat fraction : ℚ) / 10 ^ fraction.length = Int.fract x.toRat := by
    rw [← x.toNat_fractionDigits, ← hfrac, toNat_append, toNat_replicate_zero, List.length_append,
      pow_add, List.length_replicate]
    push_cast
    field_simp
    ring
  have hfraclen : fraction.length = max l.minFraction x.fractionDigits.length := by
    rw [← hfrac, List.length_append, List.length_replicate]
    omega
  have hfraclast : l.minFraction < fraction.length → fraction.getLast? ≠ some 0 := by
    intro hlt
    rw [← hfrac, Nat.sub_eq_zero_of_le (by omega), List.replicate_zero, List.append_nil]
    exact Decimal.getLast?_fractionDigits hx
  by_cases h : integer = [] ∧ fraction = []
  · obtain ⟨rfl, rfl⟩ := h
    have hzero : integerCount l x.toRat = 0 := hintlen.symm
    exact ⟨hintval, by simp [hzero], hfracval, by omega, fun hlt => absurd hlt (Nat.not_lt_zero _)⟩
  · have hempty : ¬((integer.isEmpty && fraction.isEmpty) = true) := by
      simpa only [Bool.and_eq_true, List.isEmpty_iff] using h
    rw [if_neg hempty]
    refine ⟨hintval, ?_, hfracval, hfraclen ▸ Nat.le_max_left _ _, hfraclast⟩
    show integer.length = if integerCount l x.toRat = 0 ∧ fraction = [] then 1 else _
    rw [if_neg, hintlen]
    rw [← hintlen, List.length_eq_zero_iff]
    exact h

theorem Shows.unique {b c : NumberBody} {l : DigitLimits} {r : ℚ} (hb : b.Shows l r)
    (hc : c.Shows l r) : b = c := by
  have hvalue := hb.fraction_value.trans hc.fraction_value.symm
  have hfrac : b.fraction = c.fraction := by
    rcases Nat.le_total b.fraction.length c.fraction.length with h | h
    · exact fraction_unique hvalue hb.fraction_least h hc.fraction_last
    · exact (fraction_unique hvalue.symm hc.fraction_least h hb.fraction_last).symm
  have hint : b.integer = c.integer := by
    refine toNat_inj ?_ (hb.integer_value.trans hc.integer_value.symm)
    rw [hb.integer_length, hc.integer_length, hfrac]
  obtain ⟨_, _⟩ := b
  obtain ⟨_, _⟩ := c
  cases hint
  cases hfrac
  rfl

theorem shows_iff {x : Decimal} (hx : x.Canonical) {l : DigitLimits} {b : NumberBody} :
    b.Shows l x.toRat ↔ b = ofDecimal x l :=
  ⟨fun h => h.unique (shows_ofDecimal hx l), fun h => h ▸ shows_ofDecimal hx l⟩

end NumberBody

end Numerals
