/-
# Sets of characters as tables of ranges

A property of characters is kept as a table of closed ranges of code points.

Key definitions:
* `inRanges`: whether a code point lies in one of the ranges.
-/

namespace MarkupRules.Text

/-- Whether `n` lies in one of the closed ranges of `table`. -/
def inRanges (table : List (Nat × Nat)) (n : Nat) : Bool :=
  table.any fun r => r.1 ≤ n && n ≤ r.2

end MarkupRules.Text
