import SymbolTable.Allocator
import SymbolTable.Ordered
import SymbolTable.Row

/-!
# Rows in memory

The store that keeps its rows as they are. Nothing it does can fail but drawing an id when there is
none left. Each row stands under its own id, which is part of the type.
-/

namespace SymbolTable.Store

/-- A store in memory. -/
structure Memory where
  rows : Ordered Row
  allocator : Allocator
  /-- How many writes the store has seen. -/
  writes : Nat
  keyed : ∀ e ∈ rows.entries, e.1 = e.2.id.val

namespace Memory

/-- The store without rows. -/
def empty : Memory := ⟨Ordered.empty, Allocator.initial, 0, fun _ h => nomatch h⟩

/-- The row with this id. -/
def get (m : Memory) (id : SymbolId) : Option Row :=
  m.rows.get? id.val

/-- Puts a row under its id. -/
def put (m : Memory) (r : Row) : Memory where
  rows := m.rows.insert r.id.val r
  allocator := m.allocator
  writes := m.writes + 1
  keyed e he := by
    rcases Ordered.mem_place he with rfl | he
    · rfl
    · exact m.keyed e he

/-- Takes the row with this id out, and says whether there was one. Only then does it count as a
write. -/
def remove (m : Memory) (id : SymbolId) : Bool × Memory :=
  if (m.get id).isSome then
    (true,
      { rows := m.rows.erase id.val
        allocator := m.allocator
        writes := m.writes + 1
        keyed := fun e he => m.keyed e (List.mem_filter.1 he).1 })
  else (false, m)

/-- Draws a fresh id. -/
def allocate (m : Memory) : Option SymbolId × Memory :=
  (m.allocator.draw.1, { m with allocator := m.allocator.draw.2 })

/-- All rows, by ascending id. -/
def scan (m : Memory) : List Row :=
  m.rows.values

/-- The rows at an address, by ascending id. -/
def rowsAt (m : Memory) (a : Address) : List Row :=
  m.scan.filter (·.address = a)

/-- The rows with this parent, by ascending id. -/
def rowsIn (m : Memory) (parent : Scope) : List Row :=
  m.scan.filter (·.parent = parent)

/-- The number of rows. -/
def size (m : Memory) : Nat :=
  m.rows.size

instance : Inhabited Memory := ⟨empty⟩

end Memory

end SymbolTable.Store
