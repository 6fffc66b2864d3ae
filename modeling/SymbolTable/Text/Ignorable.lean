import SymbolTable.Text.Ranges

/-!
# Characters that may be ignored

A character that a display which does not know it leaves out: one with the property
`Default_Ignorable_Code_Point` in Unicode 17. Most of them are formats or marks; the four fillers of
Hangul (`isIgnorable_of_isFiller`) are letters, and would print.
-/

namespace SymbolTable.Text

/-- The ranges of code points with the property `Default_Ignorable_Code_Point`. -/
def ignorableRanges : List (Nat × Nat) :=
  [(0xad, 0xad), (0x34f, 0x34f), (0x61c, 0x61c), (0x115f, 0x1160), (0x17b4, 0x17b5),
    (0x180b, 0x180f), (0x200b, 0x200f), (0x202a, 0x202e), (0x2060, 0x206f), (0x3164, 0x3164),
    (0xfe00, 0xfe0f), (0xfeff, 0xfeff), (0xffa0, 0xffa0), (0xfff0, 0xfff8), (0x1bca0, 0x1bca3),
    (0x1d173, 0x1d17a), (0xe0000, 0xe0fff)]

/-- Whether `c` may be ignored. -/
def isIgnorable (c : Char) : Bool :=
  inRanges ignorableRanges c.toNat

/-- Whether `c` fills the place of a consonant or a vowel in a syllable of Hangul. -/
def isFiller (c : Char) : Bool :=
  c = '\u115f' || c = '\u1160' || c = '\u3164' || c = '\uffa0'

/-- Fillers are ignorable. -/
theorem isIgnorable_of_isFiller {c : Char} (h : isFiller c = true) : isIgnorable c = true := by
  simp only [isFiller, Bool.or_eq_true, decide_eq_true_eq] at h
  rcases h with ((rfl | rfl) | rfl) | rfl <;> decide

end SymbolTable.Text
