import SymbolTable.Ident

/-!
# The journal of labels

A trail of what happened to the names of symbols. Each entry stands at an address and under the key
of a symbol. Entries are only ever added; when a symbol moves, the entries at its address move along
(`moveAddress`), and when a derived symbol gets a row, its entries go to its id (`rekey`).
-/

namespace SymbolTable

/-- What happened to a label. -/
inductive Journal.Action where
  | added
  | renamed
  | removed
  deriving DecidableEq, Repr

/-- The name of an action. -/
def Journal.Action.text : Journal.Action → String
  | .added => "Added"
  | .renamed => "Renamed"
  | .removed => "Removed"

/-- An entry of the journal. -/
structure Journal.Entry where
  address : Address
  key : Key
  action : Journal.Action
  /-- The name, or the old and the new one. -/
  label : String
  deriving DecidableEq

/-- The entries, oldest first. -/
structure Journal where
  entries : List Journal.Entry
  deriving DecidableEq

namespace Journal

/-- The journal without entries. -/
def empty : Journal := ⟨[]⟩

/-- Adds an entry. -/
def record (j : Journal) (e : Entry) : Journal :=
  ⟨j.entries ++ [e]⟩

/-- The entry of a symbol that moved: what stood at `old` stands at `new`, and what was derived from
`old` is derived from `new`. -/
def Entry.move (old new : Address) (e : Entry) : Entry where
  address := if e.address = old then new else e.address
  key := if e.key = .derived old then .derived new else e.key
  action := e.action
  label := e.label

/-- Moves the entries at an address. -/
def moveAddress (j : Journal) (old new : Address) : Journal :=
  ⟨j.entries.map (Entry.move old new)⟩

/-- The entry under the id `new`, if it stood under `old`. -/
def Entry.rekey (old : Key) (new : SymbolId) (e : Entry) : Entry :=
  if e.key = old then { e with key := .stored new } else e

/-- Gives the entries under a key to a stored symbol. -/
def rekey (j : Journal) (old : Key) (new : SymbolId) : Journal :=
  ⟨j.entries.map (Entry.rekey old new)⟩

/-- The entries at an address. -/
def entriesAt (j : Journal) (a : Address) : List Entry :=
  j.entries.filter (·.address = a)

/-- The entries under a key. -/
def entriesOf (j : Journal) (k : Key) : List Entry :=
  j.entries.filter (·.key = k)

/-- The number of entries. -/
def size (j : Journal) : Nat :=
  j.entries.length

instance : Inhabited Journal := ⟨empty⟩

end Journal

end SymbolTable
