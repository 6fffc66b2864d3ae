import SymbolTable.Store.Backend

/-!
# Stores

A store keeps the rows of a symbol table, and its calls may fail: an outage makes a call fail and
leaves the rows as they are. Outages are a plan of what happens when, so a call is made at a moment,
which is the number of calls made before. Every write that succeeds raises the modification count,
which is how copies of rows notice that they may be out of date.
-/

namespace SymbolTable

/-- The calls that an outage can hit. -/
inductive Store.Call where
  | get
  | put
  | remove
  | allocate
  | rowsAt
  | rowsIn
  | scan
  | size
  deriving DecidableEq, Repr

/-- A rule by which calls fail at any moment. -/
structure Store.Outage where
  call : Store.Call
  /-- The raw id that is hit, of the calls that are about an id. Zero is the id of no symbol. -/
  raw? : Option UInt64
  fault : StoreFault
  deriving DecidableEq

/-- The failure, if any, of a call that is made at a moment and may be about an id. -/
abbrev Store.Outages := Nat → Store.Call → Option SymbolId → Option StoreFault

/-- A store of rows. -/
structure Store where
  backend : Store.Backend
  outages : Store.Outages

namespace Store

/-- Whether an outage hits a call, which may be about an id. -/
def Outage.hits (o : Outage) (call : Call) (id? : Option SymbolId) : Bool :=
  o.call = call && (o.raw?.isNone || o.raw? = id?.map (·.val))

/-- No call ever fails. -/
def Outages.never : Outages := fun _ _ _ => none

/-- Calls fail by rules, of which the first that applies counts. -/
def Outages.ofRules (rules : List Outage) : Outages := fun _ call id? =>
  (rules.find? (·.hits call id?)).map (·.fault)

/-- A store over a backend, without outages. -/
def ofBackend (b : Backend) : Store := ⟨b, Outages.never⟩

/-- An empty store in memory. -/
def inMemory : Store := ofBackend (.memory Memory.empty)

/-- An empty store whose rows outlive it. Its directory has to be usable. -/
def openDirectory (usable : Bool) : Except StoreFault Store :=
  if usable then .ok (ofBackend (.indexed Indexed.empty))
  else .error (.io "the data directory is not usable")

/-- The same store over another backend. -/
def withBackend (s : Store) (b : Backend) : Store :=
  { s with backend := b }

section
variable (s : Store) (moment : Nat)

/-- Fails if an outage hits the call. -/
def reach (call : Call) (id? : Option SymbolId) : Except StoreFault Unit :=
  match s.outages moment call id? with
  | some fault => .error fault
  | none => .ok ()

/-- The row with this id. -/
def get (id : SymbolId) : Except StoreFault (Option Row) := do
  s.reach moment .get (some id)
  s.backend.get id

/-- Puts a row under its id. -/
def put (r : Row) : Except StoreFault Store := do
  s.reach moment .put (some r.id)
  s.withBackend <$> s.backend.put r

/-- Takes the row with this id out, and says whether there was one. -/
def remove (id : SymbolId) : Except StoreFault (Bool × Store) := do
  s.reach moment .remove (some id)
  (fun x => (x.1, s.withBackend x.2)) <$> s.backend.remove id

/-- Draws a fresh id. A draw that finds none may still change the store. -/
def allocate : Except StoreFault SymbolId × Store :=
  match s.reach moment .allocate none with
  | .error fault => (.error fault, s)
  | .ok () => (s.backend.allocate.1, s.withBackend s.backend.allocate.2)

/-- The rows at an address, by ascending id. -/
def rowsAt (a : Address) : Except StoreFault (List Row) := do
  s.reach moment .rowsAt none
  s.backend.rowsAt a

/-- The rows with this parent, by ascending id. -/
def rowsIn (parent : Scope) : Except StoreFault (List Row) := do
  s.reach moment .rowsIn none
  s.backend.rowsIn parent

/-- All rows, by ascending id. -/
def scan : Except StoreFault (List Row) := do
  s.reach moment .scan none
  s.backend.scan

/-- The number of rows. -/
def size : Except StoreFault Nat := do
  s.reach moment .size none
  return s.backend.size

/-- Whether there are no rows. -/
def isEmpty : Except StoreFault Bool :=
  (· = 0) <$> s.size moment

end

/-- How many rows the backend keeps, outage or not. -/
def rowCount (s : Store) : Nat :=
  s.backend.size

/-- How many writes the backend has seen. -/
def writes (s : Store) : Nat :=
  s.backend.writes

/-- The count that every write raises, a word that wraps around. -/
def modificationCount (s : Store) : UInt64 :=
  UInt64.ofNat s.writes

/-- Closes the store and opens it again, without outages. -/
def reopen (s : Store) : Store :=
  ofBackend s.backend.reopen

instance : Inhabited Store := ⟨inMemory⟩

end Store

end SymbolTable
