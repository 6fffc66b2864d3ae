import SymbolTable.Command
import SymbolTable.Facts
import SymbolTable.Handle
import SymbolTable.Journal
import SymbolTable.References
import SymbolTable.Rules
import SymbolTable.Settings
import SymbolTable.Store

/-!
# Symbol tables

The state of one table: its rows, its live handles with the pool that finds them by key, and what
stands around it. This module holds what can be said of a state without calling the store: derived
names, checks of names and provenances, primaries and ownership.
-/

namespace SymbolTable

/-- A symbol table. -/
structure Table where
  settings : Settings
  rules : Rules
  store : Store
  /-- Every handle ever made, by its number. -/
  handles : List Handle
  /-- The one live handle of a key. -/
  pool : Dict Key HandleId
  /-- The members of scopes, with the modification count at which they were listed. -/
  members : Dict Scope (UInt64 × List SymbolId)
  references : References
  facts : Facts
  journal : Journal
  /-- Whether anyone listens to the changes. -/
  observed : Bool
  /-- The changes so far, oldest first. -/
  log : List Event
  /-- The commands that wait for a change. -/
  reactions : List Reaction
  /-- A closed table serves no more handles. -/
  closed : Bool

namespace Table

/-- A table over a store, with nothing around it. -/
def ofStore (settings : Settings) (rules : Rules) (store : Store) (observed : Bool) : Table where
  settings := settings
  rules := rules
  store := store
  handles := []
  pool := Dict.empty
  members := Dict.empty
  references := References.empty
  facts := Facts.empty
  journal := Journal.empty
  observed := observed
  log := []
  reactions := []
  closed := false

/-- An empty table in memory. -/
def empty (settings : Settings) (rules : Rules) : Table :=
  ofStore settings rules Store.inMemory true

instance : Inhabited Table := ⟨empty default default⟩

/-! ## Handles -/

/-- The handle with this number. -/
def handle (t : Table) (h : HandleId) : Handle :=
  t.handles.getD h Handle.absent

/-- Changes a handle. -/
def updateHandle (t : Table) (h : HandleId) (f : Handle → Handle) : Table :=
  { t with handles := t.handles.set h (f (t.handle h)) }

/-- Adds a handle, whose number is the number of handles before, and pools it under a key. -/
def adopt (t : Table) (key : Key) (s : Handle) : Table :=
  { t with handles := t.handles ++ [s], pool := t.pool.insert key t.handles.length }

/-- Marks a handle deleted and takes it out of the pool, if it is the one under the key. -/
def abandon (t : Table) (h : HandleId) (key : Key) : Table :=
  { t.updateHandle h (·.invalidated) with pool := t.pool.evict key h }

/-- Abandons the handle of the symbol derived from an address, if there is one. -/
def dropDerived (t : Table) (a : Address) : Table :=
  match t.pool.get? (.derived a) with
  | some h => t.abandon h (.derived a)
  | none => t

/-- Marks the handle of a symbol whose row was taken out deleted. No handle is found by its id. -/
def release (t : Table) (h : HandleId) (id : SymbolId) : Table :=
  { t.updateHandle h (·.invalidated) with pool := t.pool.erase (.stored id) }

/-- Gives the handle of a derived symbol the row that was stored for it. From then on it is found by
the id. -/
def embody (t : Table) (h : HandleId) (row : Row) : Table :=
  { t.updateHandle h (·.promoted row t.store.modificationCount) with
    pool := t.pool.rekey (t.handle h).key (.stored row.id)
    journal := t.journal.rekey (t.handle h).key row.id }

/-! ## Names -/

/-- The name that a row without a name of its own shows if it borrows none. A row whose tag stands
for no kind counts as a label. -/
def derivedName (t : Table) (r : Row) : String :=
  t.rules.derivedName (r.kind?.getD .label) r.address r.data2

/-! ## What may be stored -/

/-- Checks that a symbol of this kind may have a name of this provenance: only some kinds may be
unnamed, and then, if they are named after their address, only in memory; all others have a name. -/
def checkProvenance (t : Table) (name : String) (a : Address) (k : Kind) (p : Provenance) :
    Except Fault Unit :=
  let caps := t.rules.capabilities k
  if p = .default then
    if !caps.unnamed then .error (.input (.neverUnnamed k))
    else if caps.stem?.isSome && !a.isMemory then .error (.input (.unnamedOutsideMemory k a))
    else .ok ()
  else if name.toList.isEmpty then .error (.input (.nameNeeded p k))
  else .ok ()

/-- Whether a row stands in the way of a symbol: it has a name, the same one, in the same scope, and
is of the same kind, and is not the row excluded. -/
def clashes (name : String) (scope : Scope) (k : Kind) (except? : Option SymbolId) (r : Row) : Bool :=
  r.parent = scope && r.tag = k.tag && r.provenance ≠ .default && r.name = name &&
    some r.id ≠ except?

/-- Checks a chosen name. -/
def checkName (t : Table) (name : String) : Except Fault Unit :=
  (Name.check name t.settings.maxNameLength).mapError fun cause => .input (.badName cause)

/-- Checks that a label is not named after a register at its address. -/
def checkEditable (t : Table) (h : HandleId) (shown : String) : Except Fault Unit :=
  if (t.handle h).kind = .label && (t.facts.registersAt (t.handle h).address).contains shown then
    .error (.input (.registerName shown))
  else .ok ()

/-! ## Primaries and ownership -/

/-- Designates a new symbol where no symbol is primary yet. -/
def claimPrimary (t : Table) (a : Address) (id : SymbolId) (k : Kind) : Table :=
  if (t.rules.capabilities k).primary && (t.facts.primaryAt a).isNone then
    { t with facts := t.facts.setPrimary a (some id) }
  else t

/-- Takes the designation of a symbol along from `old` to `new`, unless `new` has a primary. -/
def movePrimary (t : Table) (old new : Address) (id : SymbolId) : Table :=
  if t.facts.primaryAt old ≠ some id then t
  else
    let facts := t.facts.setPrimary old none
    { t with
      facts := if (facts.primaryAt new).isNone then facts.setPrimary new (some id) else facts }

/-- Whether a handle's symbol is primary at its address. A derived symbol always is, since there is
no other at its address. -/
def isPrimary (t : Table) (h : HandleId) : Bool :=
  match (t.handle h).id? with
  | none => true
  | some id =>
    (t.rules.capabilities (t.handle h).kind).primary &&
      t.facts.primaryAt (t.handle h).address = some id

/-- Whether a reference belongs to the symbol with this id, if any, that is primary or not. -/
def owns (id? : Option SymbolId) (primary : Bool) (r : Reference) : Bool :=
  match r.owner with
  | .symbol id => some id = id?
  | .primary => primary

/-- Whether a reference to a handle's address belongs to its symbol. -/
def handleOwns (t : Table) (h : HandleId) : Reference → Bool :=
  owns (t.handle h).id? (t.isPrimary h)

end Table

end SymbolTable
