import SymbolTable.Action.Creation
import SymbolTable.Workspace.Reactions

/-!
# Sessions

A session keeps a workspace and the slots in which its tables are used. A slot has a blueprint, by
which its table is built, and built again when the slot is reopened: what was in memory is gone
then, and a store that outlives its process keeps its rows. A table stays open as long as a slot
uses it or the session holds it, and is closed when the last of them lets go
(`Session.closeUnused`). A table that is closed stays in the workspace, so that its handles can
still be asked, and refuse.
-/

namespace SymbolTable

/-- How the table of a slot comes about. -/
inductive Blueprint.Origin where
  /-- Put together from parts that the session holds: its side records stay within reach, it is
  observed, and its settings are taken as they are. -/
  | assembled
  /-- Opened by its settings, which have to be valid; nothing but the table itself is within
  reach. -/
  | opened
  /-- A table in memory with the usual settings. -/
  | plain
  deriving DecidableEq

/-- How to build a table. -/
structure Blueprint where
  origin : Blueprint.Origin
  /-- Whether the rows outlive the table. -/
  durable : Bool
  settings : Settings
  rules : Rules

namespace Blueprint

/-- The directory of a table whose rows outlive it and whose settings name none. -/
def ownDirectory : String := "table"

/-- The settings of the table. A table that is opened by its settings has its directory there. -/
def tableSettings (b : Blueprint) : Settings :=
  match b.origin with
  | .assembled => b.settings
  | .opened => if b.durable then { b.settings with dataDir := some ownDirectory } else b.settings
  | .plain => Settings.inMemory

/-- Whether the rows of the table outlive it. -/
def keepsRows (b : Blueprint) : Bool :=
  match b.origin with
  | .assembled => b.durable
  | .opened => b.tableSettings.isPersistent
  | .plain => false

/-- The rules of the table. -/
def tableRules (b : Blueprint) : Rules :=
  match b.origin with
  | .assembled => b.rules
  | .opened | .plain => Rules.standard

/-- The store of a new table. -/
def newStore (b : Blueprint) : Store :=
  if b.keepsRows then Store.ofBackend (.indexed Store.Indexed.empty) else Store.inMemory

/-- Checks the settings, where they are checked. -/
def check (b : Blueprint) : Except Settings.Fault Unit :=
  match b.origin with
  | .opened => b.settings.validate
  | .assembled | .plain => .ok ()

/-- Whether the settings pass, where they are checked. -/
def isSound (b : Blueprint) : Bool :=
  b.check.toOption.isSome

/-- The table over a store. It is closed if the settings do not pass. -/
def table (b : Blueprint) (store : Store) : Table :=
  { Table.ofStore b.tableSettings b.tableRules store (b.origin = .assembled) with
    closed := !b.isSound }

end Blueprint

/-- A place of a session where a table is used. -/
structure Slot where
  blueprint : Blueprint
  /-- The place of the table in the workspace. -/
  place : Nat
  /-- Whether the slot uses the table. A slot whose settings did not pass has no table to use. -/
  inUse : Bool
  /-- References within reach of the session, where those of the table are not. -/
  references : References
  /-- A pool of live symbols of its own, apart from the pool of the table. -/
  pool : Dict Key Locator

/-- Tables in use. -/
structure Session where
  workspace : Workspace
  slots : List Slot
  /-- The places of the tables that are held, once for every time that they are. -/
  held : List Nat

namespace Session

/-- The session without slots. The table at hand is closed, and nobody uses it. -/
def empty : Session :=
  ⟨Workspace.ofTable { Table.empty Settings.inMemory Rules.standard with closed := true }, [], []⟩

/-- Opens a slot. -/
def openSlot (s : Session) (b : Blueprint) : Except Settings.Fault Unit × Session :=
  let w := s.workspace.addTable (b.table b.newStore)
  let slot : Slot := ⟨b, w.here, b.isSound, References.empty, Dict.empty⟩
  (b.check, { s with workspace := w, slots := s.slots ++ [slot] })

/-- Opens slots, one after the other. -/
def start : Session → List Blueprint → List (Except Settings.Fault Unit) × Session
  | s, [] => ([], s)
  | s, b :: bs =>
    let (answer, s) := s.openSlot b
    let (answers, s) := start s bs
    (answer :: answers, s)

/-- Changes a slot. -/
def changeSlot (s : Session) (n : Nat) (f : Slot → Slot) : Session :=
  { s with slots := s.slots.modify n f }

/-- The workspace with the table of a slot at hand. -/
def turnTo (s : Session) (slot : Slot) : Workspace :=
  s.workspace.turnTo slot.place

/-- The table of a slot, open or closed. -/
def tableOf (s : Session) (slot : Slot) : Table :=
  s.workspace.tableAt slot.place

/-- Changes the table of a slot, open or closed. -/
def changeTable (s : Session) (slot : Slot) (f : Table → Table) : Session :=
  { s with workspace := (s.turnTo slot).changeTable f }

/-- The slot with this number, if it uses its table. -/
def openAt? (s : Session) (n : Nat) : Option Slot :=
  s.slots[n]?.filter (·.inUse)

/-! ## Working with the table of a slot -/

/-- Asks the table of a slot, which has to use it. -/
def consult {α : Type} (s : Session) (n : Nat) (q : Table → α) : Option α :=
  (s.openAt? n).map fun slot => q (s.tableOf slot)

/-- Changes the table of a slot, which has to use it, and answers something about it. -/
def adjust {α : Type} (s : Session) (n : Nat) (f : Table → α × Table) : Option α × Session :=
  match s.openAt? n with
  | none => (none, s)
  | some slot =>
    let answer := (f (s.tableOf slot)).1
    (some answer, s.changeTable slot fun t => (f t).2)

/-- Runs an action at the table of a slot, which has to use it. -/
def act (s : Session) (n : Nat) (a : Action Surroundings (Reply HandleId)) :
    Option Outcome × Session :=
  match s.openAt? n with
  | none => (none, s)
  | some slot =>
    let (outcome, w) := (s.turnTo slot).carry a
    (some outcome, { s with workspace := w })

/-- Creates the symbol that a draft describes. -/
def create (s : Session) (n : Nat) (draft : Draft) : Option Outcome × Session :=
  s.act n ((.symbol ∘ some) <$> Action.create Workspace.listener draft)

/-- Runs a command on the symbol that has been shown under a number. -/
def command (s : Session) (number : Nat) (c : Command) : Outcome × Session :=
  let (outcome, w) := s.workspace.executeShown Workspace.listener number c
  (outcome, { s with workspace := w })

/-! ## What stays within reach

What stands around the table of a slot stays within reach when the slot lets go of the table. -/

/-- Whether the session holds the side records of a slot's table. -/
def holdsParts (slot : Slot) : Bool :=
  slot.blueprint.origin = .assembled

/-- The references within reach of a slot. -/
def references (s : Session) (n : Nat) : Option References :=
  s.slots[n]?.map fun slot =>
    if holdsParts slot then (s.tableOf slot).references else slot.references

/-- Replaces the references within reach of a slot. -/
def setReferences (s : Session) (n : Nat) (references : References) : Session :=
  match s.slots[n]? with
  | none => s
  | some slot =>
    if holdsParts slot then s.changeTable slot fun t => { t with references := references }
    else s.changeSlot n fun slot => { slot with references := references }

/-- The facts within reach of a slot. -/
def facts (s : Session) (n : Nat) : Option Facts :=
  s.slots[n]?.map fun slot => if holdsParts slot then (s.tableOf slot).facts else Facts.empty

/-- Replaces the facts within reach of a slot. -/
def setFacts (s : Session) (n : Nat) (facts : Facts) : Session :=
  match s.slots[n]?.filter holdsParts with
  | none => s
  | some slot => s.changeTable slot fun t => { t with facts := facts }

/-- The journal within reach of a slot. -/
def journal (s : Session) (n : Nat) : Option Journal :=
  s.slots[n]?.map fun slot =>
    if holdsParts slot then (s.tableOf slot).journal else Journal.empty

/-- The number of entries of the journal within reach of a slot that uses its table. -/
def journalSize (s : Session) (n : Nat) : Option Nat :=
  if (s.openAt? n).isSome then (s.journal n).map (·.size) else none

/-- How many changes to the table of a slot have been logged since the log was last taken. -/
def logSize (s : Session) (n : Nat) : Option Nat :=
  s.consult n (·.log.length)

/-- Lets a reaction wait for changes to the table of a slot. -/
def addReaction (s : Session) (n : Nat) (r : Reaction) : Session :=
  match s.slots[n]? with
  | none => s
  | some slot => s.changeTable slot fun t => { t with reactions := t.reactions ++ [r] }

/-- Replaces the outages of the store of a slot, if the store is within reach. -/
def setOutages (s : Session) (n : Nat) (outages : Store.Outages) : Bool × Session :=
  match s.slots[n]?.filter holdsParts with
  | none => (false, s)
  | some slot =>
    (true, s.changeTable slot fun t => { t with store := { t.store with outages := outages } })

/-! ## Closing and reopening -/

/-- Whether a slot uses the table at a place, or the session holds it. -/
def isUsed (s : Session) (place : Nat) : Bool :=
  s.held.contains place || s.slots.any fun slot => slot.inUse && slot.place = place

/-- Closes the table at a place, unless it is still used. -/
def closeUnused (s : Session) (place : Nat) : Session :=
  if s.isUsed place then s
  else
    { s with workspace := (s.workspace.turnTo place).changeTable fun t => { t with closed := true } }

/-- Holds the table of a slot, which has to use it, and answers where that table stands. -/
def hold (s : Session) (n : Nat) : Option Nat × Session :=
  match s.openAt? n with
  | none => (none, s)
  | some slot => (some slot.place, { s with held := slot.place :: s.held })

/-- Lets go of the table at a place, which has been held. -/
def letGo (s : Session) (place : Nat) : Session :=
  { s with held := s.held.erase place }.closeUnused place

/-- Lets a slot give up its table. -/
def close (s : Session) (n : Nat) : Session :=
  match s.slots[n]? with
  | none => s
  | some slot => (s.changeSlot n fun slot => { slot with inUse := false }).closeUnused slot.place

/-- Lets a slot give up its table and builds the table again over a store. The slot keeps its
pool. -/
def rebuild (s : Session) (n : Nat) (b : Blueprint) (store : Store) :
    Except Settings.Fault Unit × Session :=
  let s := s.close n
  let w := s.workspace.addTable (b.table store)
  (b.check, { s with workspace := w }.changeSlot n fun slot =>
    { slot with place := w.here, inUse := b.isSound, references := References.empty })

/-- Gives up the table of a slot and builds it again. Rows that outlive their table are kept. -/
def reopen (s : Session) (n : Nat) : Except Settings.Fault Unit × Session :=
  match s.slots[n]? with
  | none => (.ok (), s)
  | some slot => s.rebuild n slot.blueprint (s.tableOf slot).store.reopen

/-- Gives up the table of a slot, edits the rows that outlive it, and builds it again; nothing
happens where no rows do. -/
def reopenEdited (s : Session) (n : Nat) (edit : Store.Indexed → Store.Indexed) :
    Option (Except Settings.Fault Unit) × Session :=
  match s.slots[n]? with
  | none => (none, s)
  | some slot =>
    match (s.tableOf slot).store.backend with
    | .memory _ => (none, s)
    | .indexed d =>
      let (answer, s) := s.rebuild n slot.blueprint (Store.ofBackend (.indexed (edit d).reopen))
      (some answer, s)

/-! ## A pool apart -/

/-- The card of the symbol that stands under a key in the pool of a slot. -/
def pooledAt (s : Session) (n : Nat) (k : Key) : Option Card × Session :=
  let (card, w) := s.workspace.presentOption (s.slots[n]?.bind (·.pool.get? k))
  (card, { s with workspace := w })

/-- Changes the pool of a slot. -/
def changePool (s : Session) (n : Nat) (f : Dict Key Locator → Dict Key Locator) : Session :=
  s.changeSlot n fun slot => { slot with pool := f slot.pool }

/-- The number of symbols in the pool of a slot. -/
def poolSize (s : Session) (n : Nat) : Option Nat :=
  s.slots[n]?.map (·.pool.size)

/-- The card of the symbol that stands under a key in the pool of a slot; if there is none, the one
that is made, if any, is put there. Also says whether one was to be made. -/
def pooledOrMade (s : Session) (n : Nat) (k : Key) (make : Except StoreFault (Option Locator)) :
    Bool × Except StoreFault (Option Card) × Session :=
  match s.pooledAt n k with
  | (some card, s) => (false, .ok (some card), s)
  | (none, s) =>
    match make with
    | .error fault => (true, .error fault, s)
    | .ok none => (true, .ok none, s)
    | .ok (some x) =>
      let (card, s) := (s.changePool n (·.insert k x)).pooledAt n k
      (true, .ok card, s)

/-! ## After a step -/

/-- What can be told of a table at a glance. -/
structure Summary where
  symbols : Nat
  pooled : Nat
  modifications : UInt64
  persistent : Bool
  deriving DecidableEq

/-- The text of a summary. -/
def Summary.text (x : Summary) : String :=
  "symbols: " ++ toString x.symbols ++ "\ncached proxies: " ++ toString x.pooled ++
    "\nmodifications: " ++ toString x.modifications.toNat ++
    "\nstorage: " ++ (if x.persistent then "durable" else "memory-only")

end Session

/-- A table at a glance, at a moment. -/
def Table.summary (t : Table) (now : Nat) : Except StoreFault Session.Summary := do
  let symbols ← t.store.size now
  return ⟨symbols, t.pool.size, t.store.modificationCount, t.settings.isPersistent⟩

namespace Session

/-- The table of a slot at a glance, if the slot uses it and its size can be had. -/
def summaryOf (s : Session) (n : Nat) : Option Summary :=
  (s.consult n (·.summary s.workspace.clock)).bind (·.toOption)

/-- Takes the changes out of the log of the table of a slot. -/
def takeLog (s : Session) (n : Nat) : List Event × Session :=
  match s.slots[n]? with
  | none => ([], s)
  | some slot => ((s.tableOf slot).log, s.changeTable slot fun t => { t with log := [] })

/-- Takes out what became of the reactions to changes of the table of a slot, since it was last
asked. -/
def takeOutcomes (s : Session) (n : Nat) : List Outcome × Session :=
  match s.slots[n]? with
  | none => ([], s)
  | some slot =>
    let (outcomes, w) := s.workspace.takeOutcomes slot.place
    (outcomes, { s with workspace := w })

end Session

end SymbolTable
