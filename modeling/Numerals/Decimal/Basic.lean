/-!
# Exact decimals

A magnitude is held as decimal digits and the place of the point: `digits` d₁ … dₙ and `point` p
stand for 0.d₁…dₙ · 10^p. In canonical form no zero stands at either end, so that a magnitude has
one form only; every operation trims what it makes (`canonical_ofDigits`).

`toNat` and `ofNat` relate digits to natural numbers (`toNat_ofNat`).
-/

namespace Numerals

abbrev Digit := Fin 10

/-- There is a digit 0. -/
instance neZeroTen : @NeZero Nat Zero.ofOfNat0 10 := ⟨by decide⟩

namespace Digits

/-- The natural number that digits denote, the most significant first. -/
def toNat (ds : List Digit) : Nat :=
  ds.foldl (fun n (d : Digit) => 10 * n + d.val) 0

/-- The digits of a natural number without leading zeros; none for zero. -/
def ofNat (n : Nat) : List Digit :=
  if n = 0 then [] else ofNat (n / 10) ++ [Fin.ofNat 10 n]

/-- The digits as text. -/
def text (ds : List Digit) : String :=
  String.ofList (ds.map fun d => Char.ofNat ('0'.toNat + d.val))

@[simp] theorem toNat_nil : toNat [] = 0 := rfl

@[simp] theorem toNat_concat (ds : List Digit) (d : Digit) :
    toNat (ds ++ [d]) = 10 * toNat ds + d.val := by
  simp [toNat, List.foldl_append]

theorem ofNat_zero : ofNat 0 = [] := by
  rw [ofNat]
  rfl

theorem toNat_ofNat (n : Nat) : toNat (ofNat n) = n := by
  fun_induction ofNat n with
  | case1 => rfl
  | case2 n h ih =>
    rw [toNat_concat, ih]
    show 10 * (n / 10) + n % 10 = n
    omega

end Digits

/-- The magnitude 0.d₁…dₙ · 10^point. -/
structure Decimal where
  digits : List Digit
  point : Int
  deriving DecidableEq

namespace Decimal

/-- No zero at either end, and a single form of zero. -/
structure Canonical (x : Decimal) : Prop where
  head : x.digits.head? ≠ some 0
  last : x.digits.getLast? ≠ some 0
  zero : x.digits = [] → x.point = 0

def zero : Decimal := ⟨[], 0⟩

def isZero (x : Decimal) : Bool := x.digits.isEmpty

/-- Leaves out the zeros at the end. -/
def trimEnd (ds : List Digit) : List Digit :=
  (ds.reverse.dropWhile (· = 0)).reverse

/-- The magnitude 0.d₁…dₙ · 10^point in canonical form. -/
def ofDigits (ds : List Digit) (point : Int) : Decimal :=
  let significant := ds.dropWhile (· = 0)
  if significant = [] then zero
  else ⟨trimEnd significant, point - (ds.length - significant.length)⟩

/-- The magnitude with these integer and fraction digits. -/
def ofNumeral (integer fraction : List Digit) : Decimal :=
  ofDigits (integer ++ fraction) integer.length

/-- The magnitude n · 10^exponent. -/
def ofScaled (n : Nat) (exponent : Int) : Decimal :=
  let ds := Digits.ofNat n
  ofDigits ds (ds.length + exponent)

def ofNat (n : Nat) : Decimal := ofScaled n 0

/-! ## Reading the digits -/

/-- The digits before the point, without leading zeros; none for a magnitude below one. -/
def integerDigits (x : Decimal) : List Digit :=
  x.digits.take x.point.toNat ++ List.replicate (x.point.toNat - x.digits.length) 0

/-- The digits after the point, without trailing zeros. -/
def fractionDigits (x : Decimal) : List Digit :=
  List.replicate (-x.point).toNat 0 ++ x.digits.drop x.point.toNat

/-! ## Multiplication -/

/-- The digits of a product, as many as there are in `ds`, and what is carried beyond them. -/
def mulDigits (factor : Nat) : List Digit → Nat × List Digit
  | [] => (0, [])
  | d :: ds =>
    let (carry, product) := mulDigits factor ds
    let n := d.val * factor + carry
    (n / 10, Fin.ofNat 10 n :: product)

/-- The magnitude multiplied by a whole number. -/
def mul (x : Decimal) (factor : Nat) : Decimal :=
  let (carry, product) := mulDigits factor x.digits
  let carried := Digits.ofNat carry
  ofDigits (carried ++ product) (x.point + carried.length)

/-! ## Canonical form -/

theorem head?_dropWhile (ds : List Digit) : (ds.dropWhile (· = 0)).head? ≠ some 0 := by
  intro h
  have := List.head?_dropWhile_not (· = (0 : Digit)) ds
  rw [h] at this
  simp at this

theorem getLast?_trimEnd (ds : List Digit) : (trimEnd ds).getLast? ≠ some 0 := by
  rw [trimEnd, List.getLast?_reverse]
  exact head?_dropWhile ds.reverse

theorem head?_trimEnd {d : Digit} {ds : List Digit} (h : d ≠ 0) :
    (trimEnd (d :: ds)).head? = some d := by
  rw [trimEnd, List.head?_reverse, List.reverse_cons, List.dropWhile_append]
  split
  · next he => simp [h]
  · next he => simp

theorem canonical_zero : zero.Canonical := ⟨by decide, by decide, fun _ => rfl⟩

theorem canonical_ofDigits (ds : List Digit) (point : Int) : (ofDigits ds point).Canonical := by
  unfold ofDigits
  have hhead := head?_dropWhile ds
  cases hs : ds.dropWhile (· = 0) with
  | nil => exact canonical_zero
  | cons d rest =>
    rw [hs] at hhead
    have hd : d ≠ 0 := by simpa using hhead
    refine ⟨?_, getLast?_trimEnd _, fun h => ?_⟩
    · simpa [head?_trimEnd hd] using hd
    · have := @head?_trimEnd d rest hd
      simp only [reduceCtorEq, if_false] at h
      rw [h] at this
      cases this

end Decimal

end Numerals
