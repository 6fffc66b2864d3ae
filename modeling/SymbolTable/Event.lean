import SymbolTable.Ident
import SymbolTable.Provenance

/-!
# Change events

What a table tells its listeners after a change, and to which symbol and address it happened.
-/

namespace SymbolTable

/-- What changed about a symbol. -/
inductive Change where
  | added
  | renamed (old new : String)
  | scopeChanged (old new : Scope)
  | addressChanged (old new : Address)
  | provenanceChanged (old new : Provenance)
  | dataChanged
  | pinnedChanged (pinned : Bool)
  | primaryChanged (previous : Option Key)
  | removed (name : String)
  deriving DecidableEq

/-- The sorts of changes. -/
inductive Change.Sort where
  | added
  | renamed
  | scopeChanged
  | addressChanged
  | provenanceChanged
  | dataChanged
  | pinnedChanged
  | primaryChanged
  | removed
  deriving DecidableEq, Repr

/-- Of which sort a change is. -/
def Change.sort : Change → Change.Sort
  | .added => .added
  | .renamed .. => .renamed
  | .scopeChanged .. => .scopeChanged
  | .addressChanged .. => .addressChanged
  | .provenanceChanged .. => .provenanceChanged
  | .dataChanged => .dataChanged
  | .pinnedChanged _ => .pinnedChanged
  | .primaryChanged _ => .primaryChanged
  | .removed _ => .removed

/-- A change, with the symbol and the address that it happened to. -/
structure Event where
  key : Key
  address : Address
  change : Change
  deriving DecidableEq

end SymbolTable
