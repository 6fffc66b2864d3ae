/-!
# Ranges of code points

A class of characters as a list of ranges of code points, both ends included. A code point belongs
to the class if it lies in one of the ranges (`inRanges_iff`).
-/

namespace SymbolTable.Text

/-- Whether a code point lies in one of the given ranges. -/
def inRanges (ranges : List (Nat × Nat)) (n : Nat) : Bool :=
  ranges.any fun r => r.1 ≤ n && n ≤ r.2

/-- A number is in a list of ranges if it lies between the ends of one of them. -/
theorem inRanges_iff {ranges : List (Nat × Nat)} {n : Nat} :
    inRanges ranges n = true ↔ ∃ r ∈ ranges, r.1 ≤ n ∧ n ≤ r.2 := by
  simp [inRanges]

end SymbolTable.Text
