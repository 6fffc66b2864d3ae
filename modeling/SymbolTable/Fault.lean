import SymbolTable.Name
import SymbolTable.Row.Layout

/-!
# What can go wrong

A refused operation answers with a cause: a value of `Fault`, whose constructors are the six classes
of faults and whose arguments say what was wrong. The wording of every message stands here, as do
the codes and the advice that go with a class. A cause `stated` carries a message of the caller's.
-/

namespace SymbolTable

/-- A failure of the store. -/
inductive StoreFault where
  /-- A file could not be used. -/
  | io (detail : String)
  /-- A transaction did not complete. -/
  | transaction (detail : String)
  | serialization (detail : String)
  /-- The bytes of a stored row are no row. -/
  | unreadableRow (cause : Row.Layout.Fault)
  /-- There is no fresh id left. -/
  | exhausted
  deriving DecidableEq, Repr

namespace StoreFault

/-- The wording of a failure. -/
def message : StoreFault → String
  | .io detail => "I/O error: " ++ detail
  | .transaction detail => "redb transaction error: " ++ detail
  | .serialization detail => "serialization error: " ++ detail
  | .unreadableRow cause =>
    "serialization error: failed to deserialize symbol record: " ++ cause.message
  | .exhausted => "symbol key space exhausted"

/-- The code of a class of failures. -/
def code : StoreFault → String
  | .io _ => "symdb::store::io"
  | .transaction _ => "symdb::store::redb"
  | .serialization _ | .unreadableRow _ => "symdb::store::serde"
  | .exhausted => "symdb::store::exhausted"

/-- What to do about a failure. -/
def help : StoreFault → String
  | .io _ =>
    "A filesystem operation failed. Check that the data directory exists, " ++
      "has correct permissions, and that the disk is not full."
  | .transaction _ =>
    "The embedded database encountered a transaction error. " ++
      "This may indicate corruption. If the problem persists, file a bug report."
  | .serialization _ | .unreadableRow _ =>
    "Failed to serialize or deserialize a symbol record. " ++
      "This usually means the stored format changed between versions."
  | .exhausted => "No more symbol ids can be allocated from this store."

end StoreFault

/-- Why a name, a provenance or a parent is not acceptable. -/
inductive InputFault where
  | stated (message : String)
  | badName (cause : Name.Fault)
  /-- Symbols of the kind need a parent of their own. -/
  | globalParent (kind : Kind)
  | missingParent (scope : Scope)
  /-- The parent owns no symbols. -/
  | childlessParent (id : SymbolId)
  | wrongParent (kind parent : Kind)
  /-- Symbols of the kind are never unnamed. -/
  | neverUnnamed (kind : Kind)
  /-- An unnamed symbol would have to lie in memory. -/
  | unnamedOutsideMemory (kind : Kind) (address : Address)
  | nameNeeded (provenance : Provenance) (kind : Kind)
  /-- Only a rename leads from a default name to a chosen one, or back. -/
  | defaultCrossed (key : Key) (old new : Provenance)
  /-- The symbol is named after a register. -/
  | registerName (name : String)
  deriving DecidableEq

/-- The wording of an unacceptable input. -/
def InputFault.message : InputFault → String
  | .stated message => message
  | .badName cause => cause.message
  | .globalParent kind => kind.text ++ " symbols cannot live in the global namespace"
  | .missingParent scope => "namespace " ++ scope.text ++ " does not exist"
  | .childlessParent id => id.text ++ " is not a namespace"
  | .wrongParent kind parent => kind.text ++ " symbols cannot live in a " ++ parent.text
  | .neverUnnamed kind => kind.text ++ " symbols cannot have a default name"
  | .unnamedOutsideMemory kind address =>
    "a default-named " ++ kind.text ++ " needs a memory address, not " ++ address.text
  | .nameNeeded provenance kind =>
    "a " ++ provenance.text ++ " " ++ kind.text ++ " symbol needs a name"
  | .defaultCrossed key old new =>
    "cannot change source of " ++ key.text ++ " from " ++ old.text ++ " to " ++ new.text ++
      " without renaming"
  | .registerName name => "register symbol " ++ name ++ " cannot be renamed"

/-- Why parents would go round in a circle. -/
inductive CircularFault where
  | stated (message : String)
  /-- The parents above a scope do not lead to the global one. -/
  | endlessChain (scope : Scope)
  /-- A symbol was to move into a scope inside itself. -/
  | intoItself (name scope : String)
  deriving DecidableEq

/-- The wording of a circle. -/
def CircularFault.message : CircularFault → String
  | .stated message => message
  | .endlessChain scope =>
    "namespace chain above " ++ scope.text ++ " never reaches the global namespace"
  | .intoItself name scope => name ++ " cannot be moved into " ++ scope ++ ", which it contains"

/-- Why a kind of symbol does not offer an operation. -/
inductive UnsupportedFault where
  | stated (message : String)
  | pinning (kind : Kind)
  deriving DecidableEq

/-- The wording of an operation that is not offered. -/
def UnsupportedFault.message : UnsupportedFault → String
  | .stated message => message
  | .pinning kind => kind.text ++ " symbols cannot be pinned"

/-- Why a symbol is in no state for an operation. -/
inductive StateFault where
  | stated (message : String)
  /-- The table was closed. -/
  | closed
  | deleted (key : Key)
  /-- The row is gone, or stands for a symbol of another kind now. -/
  | vanished (key : Key)
  | unknownTag (id : SymbolId) (tag : UInt8)
  | immovable (kind : Kind)
  | rowless (key : Key)
  deriving DecidableEq

/-- The wording of a state that does not allow an operation. -/
def StateFault.message : StateFault → String
  | .stated message => message
  | .closed => "symbol registry has been dropped"
  | .deleted key => "symbol " ++ key.text ++ " has been deleted"
  | .vanished key => "symbol " ++ key.text ++ " no longer exists in the record store"
  | .unknownTag id tag => "record " ++ id.text ++ " has unknown type tag " ++ toString tag.toNat
  | .immovable kind => kind.text ++ " symbols cannot change address"
  | .rowless key => "dynamic symbol " ++ key.text ++ " has no record to write"

/-- Why an operation was refused. -/
inductive Fault where
  | input (cause : InputFault)
  /-- Another symbol of the same kind has the name, in this scope and at this address. -/
  | duplicateName (name scope address : String)
  | circular (cause : CircularFault)
  | unsupported (cause : UnsupportedFault)
  | state (cause : StateFault)
  | store (cause : StoreFault)
  deriving DecidableEq

namespace Fault

/-- The wording of a fault. -/
def message : Fault → String
  | .input cause => "invalid input: " ++ cause.message
  | .duplicateName name scope address =>
    "duplicate name \"" ++ name ++ "\" in " ++ scope ++ " at " ++ address
  | .circular cause => "circular namespace: " ++ cause.message
  | .unsupported cause => "unsupported operation: " ++ cause.message
  | .state cause => "illegal state: " ++ cause.message
  | .store cause => "record store failure: " ++ cause.message

/-- The code of a class of faults. -/
def code : Fault → String
  | .input _ => "symdb::symbol::invalid_input"
  | .duplicateName .. => "symdb::symbol::duplicate_name"
  | .circular _ => "symdb::symbol::circular_dependency"
  | .unsupported _ => "symdb::symbol::unsupported"
  | .state _ => "symdb::symbol::illegal_state"
  | .store _ => "symdb::symbol::resource_failure"

/-- What to do about a fault. -/
def help : Fault → String
  | .input _ =>
    "The name, source type, or namespace is not acceptable for this symbol. " ++
      "Names must be non-empty, contain no whitespace, and must not look like " ++
      "an address-derived default name."
  | .duplicateName .. =>
    "Another non-default symbol of the same type already uses this name at " ++
      "the same address and namespace. Pick a different name or namespace."
  | .circular _ => "A symbol cannot be moved into a namespace that it contains."
  | .unsupported _ => "This symbol type does not have the requested capability."
  | .state _ =>
    "The symbol was deleted, its record disappeared (for example after an " ++
      "undo), or the operation is not allowed for its type. Look the symbol " ++
      "up again from the registry."
  | .store _ =>
    "The persistent write did not complete. Abort the enclosing transaction; " ++
      "the store may be corrupt or the disk unavailable."

end Fault

end SymbolTable
