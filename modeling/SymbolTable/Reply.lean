import SymbolTable.Fault
import SymbolTable.Progress
import SymbolTable.References

/-!
# Replies

What a command answers. A reply may hold live symbols, which are handles inside a table (`Reply
HandleId`) and numbered cards for the outside (`Reply Card`).
-/

namespace SymbolTable

/-- A live symbol as it is shown: the number under which it is known, its key and its kind. -/
structure Card where
  number : Nat
  key : Key
  kind : Kind
  deriving DecidableEq

/-- Everything that can be asked of a symbol, in the order in which it is asked. -/
structure Snapshot (ι : Type) where
  key : Key
  kind : Kind
  isDerived : Bool
  isValid : Bool
  /-- The same question again, after the handle was made current. -/
  isDerivedAfter : Bool
  display : String
  name : Except Fault String
  path : Except Fault (List String)
  address : Except Fault Address
  scope : Except Fault Scope
  parent : Except Fault (Option ι)
  isGlobal : Except Fault Bool
  provenance : Except Fault Provenance
  isPinned : Except Fault Bool
  data1 : Except Fault Int64
  data2 : Except Fault Int32
  data3 : Except Fault (Option String)
  isPrimary : Except Fault Bool
  isEntryPoint : Except Fault Bool
  referenceCount : Except Fault Nat
  hasReferences : Except Fault Bool
  hasSeveralReferences : Except Fault Bool

/-- What a command answers, where live symbols are given as `ι`. -/
inductive Reply (ι : Type) where
  | done
  | flag (b : Bool)
  | count (n : Nat)
  | text (s : String)
  | texts (ss : List String)
  | note (s : Option String)
  | address (a : Address)
  | scope (s : Scope)
  | provenance (p : Provenance)
  | long (n : Int64)
  | int (n : Int32)
  | references (rs : List Reference)
  /-- What a scan under a token found, and the token after it. -/
  | watched (found : Except Fault (List Reference)) (token : Token)
  /-- The answer of a comparison, whether it was that the symbols are equal, and whether they have
  equal keys. -/
  | compared (answer : Except Fault Bool) (equal sameKey : Bool)
  | symbol (s : Option ι)
  | symbols (ss : List ι)
  | snapshot (s : Snapshot ι)

/-- What became of a command. -/
inductive Outcome where
  /-- No symbol has been shown under the number. -/
  | unknownSymbol
  | refused (fault : Fault)
  | answered (reply : Reply Card)

end SymbolTable
