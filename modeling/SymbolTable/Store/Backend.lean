import SymbolTable.Store.Indexed
import SymbolTable.Store.Memory

/-!
# What keeps the rows

A store keeps its rows in one of two ways, and this module says what each call comes to in either.
Rows in memory are kept until the store is closed; rows kept as bytes outlive it.
-/

namespace SymbolTable.Store

/-- What keeps the rows. -/
inductive Backend where
  | memory (m : Memory)
  | indexed (d : Indexed)

namespace Backend

/-- The row with this id. -/
def get (b : Backend) (id : SymbolId) : Except StoreFault (Option Row) :=
  match b with
  | .memory m => .ok (m.get id)
  | .indexed d => d.get id

/-- Puts a row under its id. -/
def put (b : Backend) (r : Row) : Except StoreFault Backend :=
  match b with
  | .memory m => .ok (.memory (m.put r))
  | .indexed d => .indexed <$> d.put r

/-- Takes the row with this id out, and says whether there was one. -/
def remove (b : Backend) (id : SymbolId) : Except StoreFault (Bool × Backend) :=
  match b with
  | .memory m => .ok ((m.remove id).1, .memory (m.remove id).2)
  | .indexed d => (fun x => (x.1, .indexed x.2)) <$> d.remove id

/-- Draws a fresh id. A draw that finds none may still change what keeps the rows. -/
def allocate (b : Backend) : Except StoreFault SymbolId × Backend :=
  match b with
  | .memory m => (m.allocate.1.elim (.error .exhausted) .ok, .memory m.allocate.2)
  | .indexed d => (d.allocate.1.elim (.error .exhausted) .ok, .indexed d.allocate.2)

/-- The rows at an address, by ascending id. -/
def rowsAt (b : Backend) (a : Address) : Except StoreFault (List Row) :=
  match b with
  | .memory m => .ok (m.rowsAt a)
  | .indexed d => d.rowsAt a

/-- The rows with this parent, by ascending id. -/
def rowsIn (b : Backend) (parent : Scope) : Except StoreFault (List Row) :=
  match b with
  | .memory m => .ok (m.rowsIn parent)
  | .indexed d => d.rowsIn parent

/-- All rows, by ascending id. -/
def scan (b : Backend) : Except StoreFault (List Row) :=
  match b with
  | .memory m => .ok m.scan
  | .indexed d => d.scan

/-- The number of rows. -/
def size (b : Backend) : Nat :=
  match b with
  | .memory m => m.size
  | .indexed d => d.size

/-- How many writes there were since the store was opened. -/
def writes (b : Backend) : Nat :=
  match b with
  | .memory m => m.writes
  | .indexed d => d.writes

/-- What is left when the store is closed and opened again: rows in memory are gone. -/
def reopen (b : Backend) : Backend :=
  match b with
  | .memory _ => .memory Memory.empty
  | .indexed d => .indexed d.reopen

instance : Inhabited Backend := ⟨.memory Memory.empty⟩

end Backend

end SymbolTable.Store
