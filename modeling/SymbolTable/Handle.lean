import SymbolTable.Fault

/-!
# Handles

A handle is the one live object of a symbol: its kind, its key, and a copy of its row with the
modification count at which the copy was taken. A handle without a row stands for a derived symbol,
about which everything follows from the address, unless it is marked deleted.
-/

namespace SymbolTable

/-- The number of a handle among those of its table. -/
abbrev HandleId := Nat

/-- A live symbol. -/
structure Handle where
  kind : Kind
  key : Key
  row : Option Row
  address : Address
  /-- The modification count at which the row was last found to be current. -/
  seenAt : UInt64
  deleted : Bool
  /-- Whether a deletion of the symbol is going on. -/
  deleting : Bool
  deriving DecidableEq

namespace Handle

/-- The handle of a row, whose tag must stand for a kind. -/
def ofRow (r : Row) (seenAt : UInt64) : Except Fault Handle :=
  match r.kind? with
  | some kind => .ok ⟨kind, .stored r.id, some r, r.address, seenAt, false, false⟩
  | none => .error (.state (.unknownTag r.id r.tag))

/-- The handle of the symbol derived from an address. -/
def derived (a : Address) : Handle :=
  ⟨.label, .derived a, none, a, 0, false, false⟩

/-- What stands where there is no handle: a deleted one. -/
def absent : Handle :=
  { derived Address.nowhere with deleted := true }

/-- The id of a stored symbol. -/
def id? (h : Handle) : Option SymbolId :=
  h.key.id?

/-- Whether everything about the symbol is derived from its address. -/
def isDerived (h : Handle) : Bool :=
  h.row.isNone && !h.deleted

/-- The parent of the symbol. -/
def parent (h : Handle) : Scope :=
  (h.row.map (·.parent)).getD .global

/-- Where the name comes from. -/
def provenance (h : Handle) : Provenance :=
  (h.row.map (·.provenance)).getD .default

/-- The first datum; a derived symbol has zero. -/
def data1 (h : Handle) : Int64 :=
  h.row.elim 0 (·.data1)

/-- The second datum; a derived symbol has zero. -/
def data2 (h : Handle) : Int32 :=
  h.row.elim 0 (·.data2)

/-- The third datum; a derived symbol has none. -/
def data3 (h : Handle) : Option String :=
  h.row.bind (·.data3)

/-- The handle with a current copy of its row. -/
def refreshed (h : Handle) (r : Row) (seenAt : UInt64) : Handle :=
  { h with row := some r, address := r.address, seenAt := seenAt }

/-- The handle of a symbol that is gone. -/
def invalidated (h : Handle) : Handle :=
  { h with row := none, deleted := true }

/-- The handle of a derived symbol that got a row. -/
def promoted (h : Handle) (r : Row) (seenAt : UInt64) : Handle :=
  { h with key := .stored r.id, row := some r, address := r.address, seenAt := seenAt }

/-- The handle of a derived symbol at another address. -/
def relocated (h : Handle) (a : Address) : Handle :=
  { h with address := a, key := .derived a }

instance : Inhabited Handle := ⟨absent⟩

end Handle

end SymbolTable
