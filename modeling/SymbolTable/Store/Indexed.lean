import SymbolTable.Fault
import SymbolTable.Ordered
import SymbolTable.Store.Index

/-!
# Rows as bytes, with indexes

The store that outlives its process. It keeps the bytes of each row under the row's id, one index by
address and one by parent, and the next fresh id. A write takes the old row out of the indexes and
puts the new one in, so it reads the old bytes, and fails without a trace if they are no row. The
index by address does not keep the width of the space, so an answer drops rows of other widths.
-/

namespace SymbolTable.Store

/-- A store of bytes with two indexes. -/
structure Indexed where
  cells : Ordered (List UInt8)
  byAddress : Index (UInt16 × UInt64)
  byParent : Index UInt64
  /-- The next fresh id; zero if there is none. -/
  nextId : UInt64
  /-- How many writes the store has seen since it was opened. -/
  writes : Nat

namespace Indexed

/-- The store without rows. -/
def empty : Indexed := ⟨Ordered.empty, Index.empty, Index.empty, 1, 0⟩

/-- What the index by address keeps of an address. -/
def addressKey (a : Address) : UInt16 × UInt64 :=
  (a.space.id, a.offset)

/-- Reads the bytes of a row. -/
def read (bytes : List UInt8) : Except StoreFault Row :=
  (Row.Layout.decode bytes).mapError .unreadableRow

/-- The row under a word. -/
def readAt (d : Indexed) (k : UInt64) : Except StoreFault (Option Row) :=
  match d.cells.get? k with
  | some bytes => some <$> read bytes
  | none => .ok none

/-- The row with this id. -/
def get (d : Indexed) (id : SymbolId) : Except StoreFault (Option Row) :=
  d.readAt id.val

/-- Takes a row out of both indexes, under the id that it has itself. -/
def unindex (d : Indexed) (old : Row) : Indexed :=
  { d with
    byAddress := d.byAddress.remove (addressKey old.address) old.id.val
    byParent := d.byParent.remove old.parent.raw old.id.val }

/-- Takes the row that stood under an id out of the indexes. -/
def unindexOld (d : Indexed) : Option Row → Indexed
  | some old => d.unindex old
  | none => d

/-- Puts a row under its id, if its texts fit. -/
def put (d : Indexed) (r : Row) : Except StoreFault Indexed := do
  if !Row.Layout.fits r then
    .error (.serialization ("failed to serialize symbol record " ++ r.id.text))
  let old ← d.get r.id
  let d := d.unindexOld old
  return {
    cells := d.cells.insert r.id.val (Row.Layout.encode r)
    byAddress := d.byAddress.add (addressKey r.address) r.id.val
    byParent := d.byParent.add r.parent.raw r.id.val
    nextId := d.nextId
    writes := d.writes + 1 }

/-- Takes the row with this id out, and says whether there was one. -/
def remove (d : Indexed) (id : SymbolId) : Except StoreFault (Bool × Indexed) := do
  match ← d.get id with
  | none => return (false, d)
  | some old =>
    let d := d.unindex old
    return (true, { d with cells := d.cells.erase id.val, writes := d.writes + 1 })

/-- Draws a fresh id. The last word is never given out, since none follows it. -/
def allocate (d : Indexed) : Option SymbolId × Indexed :=
  match SymbolId.ofRaw? d.nextId with
  | none => (none, d)
  | some id =>
    if d.nextId = 0xffffffffffffffff then (none, d)
    else (some id, { d with nextId := d.nextId + 1 })

/-- The rows under these words, in order; a word without a row is passed over. -/
def readEach (d : Indexed) : List UInt64 → Except StoreFault (List Row)
  | [] => .ok []
  | k :: ks => do
    let row ← d.readAt k
    let rows ← d.readEach ks
    return row.toList ++ rows

/-- The rows under these words, by ascending id. -/
def load (d : Indexed) (ks : List UInt64) : Except StoreFault (List Row) :=
  (·.mergeSort fun a b => a.id.le b.id) <$> d.readEach ks

/-- The rows at an address, by ascending id. -/
def rowsAt (d : Indexed) (a : Address) : Except StoreFault (List Row) :=
  (·.filter (·.address = a)) <$> d.load (d.byAddress.ids (addressKey a))

/-- The rows with this parent, by ascending id. -/
def rowsIn (d : Indexed) (parent : Scope) : Except StoreFault (List Row) :=
  d.load (d.byParent.ids parent.raw)

/-- All rows, by ascending word. -/
def scan (d : Indexed) : Except StoreFault (List Row) :=
  d.cells.values.mapM read

/-- The number of rows. -/
def size (d : Indexed) : Nat :=
  d.cells.size

/-- Closes the store and opens it again: it keeps everything but the count of its writes. -/
def reopen (d : Indexed) : Indexed :=
  { d with writes := 0 }

/-- Replaces the bytes under a word and nothing else. -/
def overwrite (d : Indexed) (k : UInt64) (bytes : List UInt8) : Indexed :=
  { d with cells := d.cells.insert k bytes }

instance : Inhabited Indexed := ⟨empty⟩

end Indexed

end SymbolTable.Store
