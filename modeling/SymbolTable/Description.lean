import SymbolTable.Table
import SymbolTable.Text.Escape

/-!
# Descriptions

The fields of a symbol and of a table, spelled out for whoever looks for a fault. A record is
written as its name and its fields between braces.
-/

namespace SymbolTable

/-- A record: its name and its fields, each with its name. -/
def describeRecord (name : String) (fields : List (String × String)) : String :=
  name ++ " \x7b " ++ ", ".intercalate (fields.map fun f => f.1 ++ ": " ++ f.2) ++ " \x7d"

/-- A value under a name. -/
def describeWrapped (name value : String) : String :=
  name ++ "(" ++ value ++ ")"

/-- An address and its space. -/
def Address.description (a : Address) : String :=
  describeRecord "Address"
    [("space", describeRecord "AddressSpace"
      [("id", toString a.space.id.toNat), ("bits", toString a.space.bits.toNat)]),
      ("offset", toString a.offset.toNat)]

/-- A key and what it is made of. -/
def Key.description : Key → String
  | .stored id => describeWrapped "Persisted" (describeWrapped "SymbolId" (toString id.val.toNat))
  | .derived a => describeWrapped "Dynamic" a.description

/-- What a handle holds of its symbol. -/
def Handle.description (h : Handle) : String :=
  describeRecord "Symbol"
    [("key", h.key.description), ("type", h.kind.identifier), ("address", h.address.description),
      ("deleted", toString h.deleted)]

/-- All settings. -/
def Settings.description (s : Settings) : String :=
  describeRecord "RegistryConfig"
    [("data_dir", s.dataDir.elim "None" (describeWrapped "Some" <| Text.quoted ·)),
      ("max_namespace_depth", toString s.maxDepth), ("max_name_length", toString s.maxNameLength),
      ("cache_capacity", toString s.poolCapacity)]

/-- The settings of a table and the size of its pool. -/
def Table.description (t : Table) : String :=
  describeRecord "SymbolRegistry"
    [("config", t.settings.description), ("cached", toString t.pool.size)]

end SymbolTable
