import SymbolTable.Event
import SymbolTable.Progress

/-!
# Commands on a symbol

Everything that can be asked of a live symbol and done to it, as a value, so that commands can be
kept and run later: a `Query` changes nothing, an `Edit` does, and a comparison names a second
symbol. A `Reaction` is a command that waits for a change: when a change of its sort happens to the
symbol with its key, it is taken off the table's list and run on its target.
-/

namespace SymbolTable

/-- What can be asked of a live symbol. -/
inductive Query where
  | isValid
  | isDerived
  | key
  | display
  | description
  | name
  | qualifiedName (bare : Bool)
  | path
  | address
  | scope
  | parent
  | isGlobal
  | provenance
  | isPinned
  | data1
  | data2
  | data3
  | isPrimary
  | isEntryPoint
  | encloses (scope : Scope)
  | referenceCount
  | hasReferences
  | hasSeveralReferences
  /-- The references, scanned under a token if there is one. -/
  | references (watch : Option Monitor.Watch)
  /-- Everything at once. -/
  | snapshot
  deriving DecidableEq

/-- What can be done to a live symbol. -/
inductive Edit where
  | setProvenance (provenance : Provenance)
  | setPinned (pinned : Bool)
  | rename (name : String) (scope : Scope) (provenance : Provenance)
  | setName (name : String) (provenance : Provenance)
  | setScope (scope : Scope)
  | setAddress (address : Address)
  | relocate (oldBase newBase : Address)
  | setData1 (value : Int64)
  | setData2 (value : Int32)
  | setData3 (value : Option String)
  | setPrimary
  | delete
  deriving DecidableEq

/-- A command on a live symbol. -/
inductive Command where
  | query (q : Query)
  | edit (e : Edit)
  /-- Compares the symbol with the one that has been shown under a number. -/
  | compare (other : Nat)
  deriving DecidableEq

/-- A command that waits for a change. -/
structure Reaction where
  sort : Change.Sort
  /-- The text of the key of the one symbol it waits for. -/
  keyText? : Option String
  /-- The number under which the target has been shown. -/
  target : Nat
  command : Command
  deriving DecidableEq

/-- Whether an event is what a reaction waits for. -/
def Reaction.awaits (r : Reaction) (e : Event) : Bool :=
  r.sort = e.change.sort && (r.keyText?.isNone || r.keyText? = some e.key.text)

end SymbolTable
