/-!
# Pattern categories
-/

namespace Numerals

/-- What a number pattern is for. -/
inductive Category where
  /-- Plain numbers, whole ones included. -/
  | decimal
  /-- Amounts of money. -/
  | currency
  /-- Ratios shown in percent. -/
  | percent
  deriving DecidableEq

namespace Category

def name : Category → String
  | decimal => "decimal"
  | currency => "currency"
  | percent => "percent"

/-- Every category, in the order in which patterns are checked. -/
def all : List Category := [decimal, currency, percent]

theorem mem_all (c : Category) : c ∈ all := by cases c <;> decide

end Category

end Numerals
