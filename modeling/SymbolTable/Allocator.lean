import SymbolTable.Ident

/-!
# Drawing fresh ids

An allocator hands out the words after its starting point one by one. `position` counts every word
drawn and never wraps; the word handed out is the position modulo 2^64, and where that is zero,
which is no id, the draw fails but still counts.
-/

namespace SymbolTable

/-- The source of fresh ids of a store that forgets everything when it is closed. -/
structure Allocator where
  position : Nat
  deriving DecidableEq, Repr

namespace Allocator

/-- The allocator whose first word is `start`, or one if `start` is zero. -/
def startingFrom (start : UInt64) : Allocator :=
  ⟨max start.toNat 1⟩

/-- The allocator of an empty store, whose first id is one. -/
def initial : Allocator := startingFrom 1

/-- The word that the next draw looks at. -/
def peek (a : Allocator) : UInt64 :=
  UInt64.ofNat a.position

/-- Draws a word: the id it is, unless it is zero, and the allocator after it. -/
def draw (a : Allocator) : Option SymbolId × Allocator :=
  (SymbolId.ofRaw? a.peek, ⟨a.position + 1⟩)

instance : Inhabited Allocator := ⟨initial⟩

end Allocator

end SymbolTable
