import SymbolTable.Name
import SymbolTable.Row

/-!
# What a kind of symbol may do

A set of rules says of each kind of symbol what it may do: whether symbols of it can be pinned,
moved, left without a name or made primary, whether they lie at an address, and which kinds may own
them. The rules also settle the provenance of a rename, name the symbols that have no name of their
own, and say from which symbol a row borrows its name. `Rules.ofCapabilities` are the rules that
follow from a table of capabilities, and `Rules.standard` are those of the usual table.
-/

namespace SymbolTable

/-- What symbols of one kind may do. -/
structure Capabilities where
  pinnable : Bool
  movable : Bool
  /-- Whether a symbol may do without a name of its own. -/
  unnamed : Bool
  /-- Whether a symbol may be the primary one at its address. -/
  primary : Bool
  /-- Whether a symbol lies at an address at all. -/
  located : Bool
  /-- The stem of the names derived from addresses. -/
  stem? : Option String
  /-- Whether the global scope may own a symbol. -/
  globalParent : Bool
  /-- The kinds of scopes that may own a symbol. -/
  parents : List Kind
  deriving DecidableEq

namespace Capabilities

/-- A code symbol that may be named after its address. -/
def codeLike (stem : String) (parents : List Kind) : Capabilities where
  pinnable := true
  movable := false
  unnamed := true
  primary := true
  located := true
  stem? := some stem
  globalParent := true
  parents := parents

/-- A symbol that owns others and lies nowhere. -/
def scopeLike (parents : List Kind) : Capabilities where
  pinnable := false
  movable := false
  unnamed := false
  primary := false
  located := false
  stem? := none
  globalParent := true
  parents := parents

/-- A variable, which moves with its storage. -/
def variableLike (unnamed globalParent : Bool) (parents : List Kind) : Capabilities where
  pinnable := false
  movable := true
  unnamed := unnamed
  primary := false
  located := true
  stem? := none
  globalParent := globalParent
  parents := parents

/-- The usual capabilities. -/
def standard : Kind → Capabilities
  | .label => codeLike "LAB" [.namespaceScope, .classScope, .function]
  | .function => codeLike "FUN" [.namespaceScope, .classScope, .library]
  | .library => scopeLike []
  | .namespaceScope => scopeLike [.namespaceScope, .classScope, .library, .function]
  | .classScope => scopeLike [.namespaceScope, .classScope, .library]
  | .parameter | .localVariable => variableLike true false [.function]
  | .globalVariable => variableLike false true [.namespaceScope, .classScope]

/-- Whether a scope of kind `parent`, or the global one, may own symbols with these capabilities. -/
def acceptsParent (c : Capabilities) : Option Kind → Bool
  | none => c.globalParent
  | some parent => parent.isScope && c.parents.contains parent

/-- The provenance that a rename to `name` ends up with. A kind that may be unnamed goes back to the
default if the name is empty or the one derived from the address. -/
def settle (c : Capabilities) (name : String) (a : Address) (p : Provenance) : Provenance :=
  if !c.unnamed || p = .default then p
  else if name.toList.isEmpty || c.stem?.any (name = Name.derived · a) then .default
  else p

end Capabilities

/-- What the kinds of symbols may do and how symbols without a name are called. -/
structure Rules where
  capabilities : Kind → Capabilities
  /-- Whether a scope of a kind, or the global one, may own symbols of the first kind. -/
  acceptsParent : Kind → Option Kind → Bool
  pinnable : Kind → Bool
  movable : Kind → Bool
  /-- The provenance that a rename to a name at an address ends up with. -/
  settle : Kind → String → Address → Provenance → Provenance
  /-- The symbol from which a row borrows its name. -/
  lender? : Row → Option SymbolId
  /-- The name shown for a symbol that has none and borrows none, by its address and ordinal. -/
  derivedName : Kind → Address → Int32 → String

namespace Rules

/-- The symbol from which an unnamed row borrows its name: an unnamed function whose first datum is
the id of another symbol shows that symbol's name. -/
def lenderOf (row : Row) : Option SymbolId :=
  if row.kind? = some .function && row.provenance = .default && 0 < row.data1 then
    (SymbolId.ofRaw? row.data1.toUInt64).filter (· ≠ row.id)
  else none

/-- The name that a symbol without a name has by its kind, whose names may have a stem. -/
def nameByKind (stem? : Option String) (k : Kind) (a : Address) (ordinal : Int32) : String :=
  match k with
  | .parameter => "param_" ++ toString (ordinal.toInt + 1)
  | .localVariable => "local_" ++ String.ofList (Hex.digits a.offset.toNat)
  | _ => Name.derived (stem?.getD "UNK") a

/-- The rules that follow from what every kind may do. -/
def ofCapabilities (capabilities : Kind → Capabilities) : Rules where
  capabilities := capabilities
  acceptsParent k := (capabilities k).acceptsParent
  pinnable k := (capabilities k).pinnable
  movable k := (capabilities k).movable
  settle k := (capabilities k).settle
  lender? := lenderOf
  derivedName k := nameByKind (capabilities k).stem? k

/-- The usual rules. -/
def standard : Rules := ofCapabilities Capabilities.standard

instance : Inhabited Rules := ⟨standard⟩

end Rules

end SymbolTable
