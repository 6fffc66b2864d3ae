import SymbolTable.Text.Ranges

/-!
# Blank and control characters

Two classes of characters that a symbol name may not contain: those with the Unicode property
`White_Space` and those of the general category `Cc`. Every character that core calls whitespace is
blank (`isBlank_of_isWhitespace`).
-/

namespace SymbolTable.Text

/-- The ranges of code points with the property `White_Space`, both ends included. -/
def whiteSpaceRanges : List (Nat × Nat) :=
  [(0x09, 0x0d), (0x20, 0x20), (0x85, 0x85), (0xa0, 0xa0), (0x1680, 0x1680), (0x2000, 0x200a),
    (0x2028, 0x2029), (0x202f, 0x202f), (0x205f, 0x205f), (0x3000, 0x3000)]

/-- Whether `c` has the property `White_Space`. -/
def isBlank (c : Char) : Bool :=
  inRanges whiteSpaceRanges c.toNat

/-- Whether `c` is a control character: the first 32 code points, and 0x7f to 0x9f. -/
def isControl (c : Char) : Bool :=
  inRanges [(0, 0x1f), (0x7f, 0x9f)] c.toNat

/-- What counts as white space in the core library is blank, so no name may have it. -/
theorem isBlank_of_isWhitespace {c : Char} (h : c.isWhitespace = true) : isBlank c = true := by
  simp only [Char.isWhitespace, Bool.or_eq_true, decide_eq_true_eq] at h
  rcases h with ((rfl | rfl) | rfl) | rfl <;> decide

end SymbolTable.Text
