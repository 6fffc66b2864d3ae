import SymbolTable.Kind
import SymbolTable.Provenance
import SymbolTable.Ident

/-!
# Rows

A row is what the store keeps of one symbol. Its flags hold the provenance of the name in the low
two bits and the pinned mark in the third; writing one of them leaves all other bits alone.
-/

namespace SymbolTable

/-- What the store keeps of a symbol. -/
structure Row where
  id : SymbolId
  /-- The tag of the kind; a tag that stands for no kind is kept as it is. -/
  tag : UInt8
  address : Address
  /-- Empty where the name is derived. -/
  name : String
  parent : Scope
  flags : UInt8
  data1 : Int64
  /-- The ordinal, for parameters. -/
  data2 : Int32
  data3 : Option String
  deriving DecidableEq

namespace Row

/-- The bits of the flags that hold the provenance. -/
def provenanceBits : UInt8 := 0x03

/-- The bit of the flags that marks a pinned symbol. -/
def pinnedBit : UInt8 := 0x04

/-- The row of a new symbol, not pinned and without data. -/
def fresh (id : SymbolId) (kind : Kind) (address : Address) (name : String) (parent : Scope)
    (provenance : Provenance) : Row where
  id := id
  tag := kind.tag
  address := address
  name := name
  parent := parent
  flags := provenance.rank
  data1 := 0
  data2 := 0
  data3 := none

/-- The kind of the symbol, if its tag stands for one. -/
def kind? (r : Row) : Option Kind :=
  Kind.ofTag? r.tag

/-- Where the name comes from. -/
def provenance (r : Row) : Provenance :=
  Provenance.ofBits (r.flags &&& provenanceBits)

/-- Whether the symbol is pinned. -/
def isPinned (r : Row) : Bool :=
  r.flags &&& pinnedBit ≠ 0

/-- Replaces the provenance. -/
def withProvenance (r : Row) (p : Provenance) : Row :=
  { r with flags := (r.flags &&& ~~~provenanceBits) ||| p.rank }

/-- Replaces the pinned mark. -/
def withPinned (r : Row) (pinned : Bool) : Row :=
  { r with flags := if pinned then r.flags ||| pinnedBit else r.flags &&& ~~~pinnedBit }

end Row

end SymbolTable
