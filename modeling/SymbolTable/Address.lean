import SymbolTable.Text.Hex

/-!
# Addresses

An address is an offset in an address space, and a space is a number with a width in bits. Offsets
are 64-bit words taken modulo the size of their space: `Address.displace` wraps around its end, and
`Address.distance?` gives the displacement between two addresses of one space.
-/

namespace SymbolTable

/-- An address space: its number and the width of its offsets. -/
structure Space where
  id : UInt16
  bits : UInt8
  deriving DecidableEq, Repr

namespace Space

/-- The space of symbols that lie nowhere. -/
def nowhere : Space := ⟨0, 0⟩

/-- The memory of the program, 32 bits wide. -/
def ram : Space := ⟨1, 32⟩

/-- The registers of the processor. -/
def register : Space := ⟨2, 16⟩

/-- Places relative to a function's frame. -/
def stack : Space := ⟨3, 32⟩

/-- The space with this number whose width is `bits`, brought into the range 1 to 64. -/
def ofWidth (id : UInt16) (bits : UInt8) : Space :=
  ⟨id, if bits = 0 then 1 else if 64 < bits then 64 else bits⟩

/-- The bits of an offset that count. -/
def mask (s : Space) : UInt64 :=
  if s.bits = 0 then 0
  else if 64 ≤ s.bits then 0xffffffffffffffff
  else (1 <<< s.bits.toUInt64) - 1

/-- Whether addresses of the space are loaded memory. All are but nowhere, the registers and the
stack. -/
def isMemory (s : Space) : Bool :=
  s.id ≠ nowhere.id && s.id ≠ register.id && s.id ≠ stack.id

/-- The short name of the space. -/
def name (s : Space) : String :=
  if s.id = 0 then "none"
  else if s.id = 1 then "ram"
  else if s.id = 2 then "register"
  else if s.id = 3 then "stack"
  else "space" ++ toString s.id.toNat

end Space

/-- An offset in an address space. -/
structure Address where
  space : Space
  offset : UInt64
  deriving DecidableEq, Repr

namespace Address

/-- The address of symbols that lie nowhere. -/
def nowhere : Address := ⟨Space.nowhere, 0⟩

/-- The address at an offset, which is taken modulo the size of the space. -/
def ofOffset (space : Space) (offset : UInt64) : Address :=
  ⟨space, offset &&& space.mask⟩

/-- An address of the program's memory. -/
def ram (offset : UInt64) : Address :=
  ofOffset Space.ram offset

/-- Whether the address is loaded memory. -/
def isMemory (a : Address) : Bool :=
  a.space.isMemory

/-- The displacement that leads from `base` to `a`; only addresses of one space have one. -/
def distance? (a base : Address) : Option Int64 :=
  if a.space = base.space then some (a.offset - base.offset).toInt64 else none

/-- The address at a displacement `d` from `a`, wrapping around the end of the space. -/
def displace (a : Address) (d : Int64) : Address :=
  ⟨a.space, (a.offset + d.toUInt64) &&& a.space.mask⟩

/-- Where an address comes to lie when the block at `oldBase` moves to `newBase`. Addresses of other
spaces stay. -/
def relocated (a oldBase newBase : Address) : Address :=
  match a.distance? oldBase with
  | some d => newBase.displace d
  | none => a

/-- How many hexadecimal digits an offset of the space is written with. -/
def hexWidth (a : Address) : Nat :=
  max 1 ((a.space.bits.toNat + 3) / 4)

/-- The offset in hexadecimal, padded to the width of the space. -/
def hexOffset (a : Address) : String :=
  String.ofList (Hex.padded a.hexWidth a.offset.toNat)

/-- The text of an address. -/
def text (a : Address) : String :=
  if a = nowhere then "NO ADDRESS" else a.space.name ++ ":" ++ a.hexOffset

/-- The order of addresses: by the number of the space, then its width, then the offset. -/
def order (a b : Address) : Ordering :=
  (compare a.space.id b.space.id).then
    ((compare a.space.bits b.space.bits).then (compare a.offset b.offset))

instance : Inhabited Address := ⟨nowhere⟩

end Address

end SymbolTable
