/-!
# Tables of ranges

A property of characters that no formula gives is listed as the ascending bounds of its ranges: the
first member of a range, then the first number after it, and so on.
-/

namespace TreeShell.Text

/-- Whether `n` lies in one of the ranges with the given ascending bounds. -/
def inRanges : List Nat → Nat → Bool
  | lo :: hi :: rest, n => if n < lo then false else n < hi || inRanges rest n
  | _, _ => false

example : inRanges [10, 12, 20, 21] 11 = true ∧ inRanges [10, 12, 20, 21] 12 = false := by decide

end TreeShell.Text
