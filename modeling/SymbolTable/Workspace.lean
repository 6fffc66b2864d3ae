import SymbolTable.Action
import SymbolTable.Reply

/-!
# Workspaces

A workspace is a row of tables, one of which is at hand: an action acts on that one, and `within`
runs an action at another table and turns back. Live symbols are shown to the outside as cards. A
card's number says as which one the symbol was first shown; the roster keeps the symbols in that
order, so a number always stands for the same symbol.
-/

namespace SymbolTable

/-- A live symbol of a workspace: the place of its table and its handle there. -/
structure Locator where
  table : Nat
  handle : HandleId
  deriving DecidableEq

/-- What is around the table at hand. -/
structure Surroundings where
  before : List Table
  after : List Table
  /-- The symbols shown so far, by the numbers of their cards. -/
  roster : List Locator
  /-- What became of the reactions so far, latest last, each with the place of the table whose
  change it waited for. -/
  outcomes : List (Nat × Outcome)

/-- Tables, one of which is at hand. -/
abbrev Workspace := Situated Surroundings

namespace Workspace

/-- The workspace of one table. -/
def ofTable (t : Table) : Workspace :=
  ⟨t, ⟨[], [], [], []⟩, 0⟩

/-- All tables. -/
def tables (w : Workspace) : List Table :=
  w.around.before ++ w.table :: w.around.after

/-- The place of the table at hand. -/
def here (w : Workspace) : Nat :=
  w.around.before.length

/-- The table at a place. -/
def tableAt (w : Workspace) (n : Nat) : Table :=
  w.tables.getD n w.table

/-- Brings the table at a place to hand, if there is one. -/
def turnTo (w : Workspace) (n : Nat) : Workspace :=
  if n = w.here then w
  else
    match w.tables.drop n with
    | [] => w
    | t :: after =>
      { w with table := t, around := { w.around with before := w.tables.take n, after := after } }

/-- Adds a table at the end and brings it to hand. -/
def addTable (w : Workspace) (t : Table) : Workspace :=
  { w with table := t, around := { w.around with before := w.tables, after := [] } }

/-- Changes the table at hand. -/
def changeTable (w : Workspace) (f : Table → Table) : Workspace :=
  { w with table := f w.table }

/-- How many reactions wait in all tables. -/
def pendingReactions (w : Workspace) : Nat :=
  w.tables.foldl (fun n t => n + t.reactions.length) 0

/-- Notes what became of a reaction to a change of the table at hand. -/
def noteOutcome (w : Workspace) (o : Outcome) : Workspace :=
  { w with around := { w.around with outcomes := w.around.outcomes ++ [(w.here, o)] } }

/-- Takes out what became of the reactions to changes of the table at a place, since it was last
asked. -/
def takeOutcomes (w : Workspace) (n : Nat) : List Outcome × Workspace :=
  let (taken, left) := w.around.outcomes.partition (·.1 = n)
  (taken.map (·.2), { w with around := { w.around with outcomes := left } })

/-! ## Showing symbols -/

/-- The symbol with this number. -/
def shown? (w : Workspace) (number : Nat) : Option Locator :=
  w.around.roster[number]?

/-- The handle of a symbol. -/
def handleOf (w : Workspace) (x : Locator) : Handle :=
  (w.tableAt x.table).handle x.handle

/-- The card of a symbol, which is put on the roster if it has not been shown yet. -/
def present (w : Workspace) (x : Locator) : Card × Workspace :=
  let s := w.handleOf x
  let roster := w.around.roster
  if x ∈ roster then (⟨roster.idxOf x, s.key, s.kind⟩, w)
  else (⟨roster.length, s.key, s.kind⟩, { w with around := { w.around with roster := roster ++ [x] } })

/-- The cards of symbols, in order. -/
def presentEach (w : Workspace) : List Locator → List Card × Workspace
  | [] => ([], w)
  | x :: xs =>
    let (card, w) := w.present x
    let (cards, w) := w.presentEach xs
    (card :: cards, w)

/-- The card of a symbol, if there is one. -/
def presentOption (w : Workspace) : Option Locator → Option Card × Workspace
  | none => (none, w)
  | some x =>
    let (card, w) := w.present x
    (some card, w)

/-- The symbol of the table at hand with this handle. -/
def locate (w : Workspace) (h : HandleId) : Locator :=
  ⟨w.here, h⟩

/-- A snapshot as it is shown. -/
def presentSnapshot (w : Workspace) (s : Snapshot HandleId) : Snapshot Card × Workspace :=
  match s.parent with
  | .error fault => ({ s with parent := .error fault }, w)
  | .ok h =>
    let (card, w) := w.presentOption (h.map w.locate)
    ({ s with parent := .ok card }, w)

/-- A reply of the table at hand as it is shown. -/
def presentReply (w : Workspace) : Reply HandleId → Reply Card × Workspace
  | .symbol h =>
    let (card, w) := w.presentOption (h.map w.locate)
    (.symbol card, w)
  | .symbols hs =>
    let (cards, w) := w.presentEach (hs.map w.locate)
    (.symbols cards, w)
  | .snapshot s =>
    let (s, w) := w.presentSnapshot s
    (.snapshot s, w)
  | .done => (.done, w)
  | .flag b => (.flag b, w)
  | .count n => (.count n, w)
  | .text s => (.text s, w)
  | .texts ss => (.texts ss, w)
  | .note s => (.note s, w)
  | .address a => (.address a, w)
  | .scope s => (.scope s, w)
  | .provenance p => (.provenance p, w)
  | .long n => (.long n, w)
  | .int n => (.int n, w)
  | .references rs => (.references rs, w)
  | .watched found token => (.watched found token, w)
  | .compared answer equal sameKey => (.compared answer equal sameKey, w)

/-- Runs an action at the table at hand and shows what became of it. -/
def carry (w : Workspace) (a : Action Surroundings (Reply HandleId)) : Outcome × Workspace :=
  match a.run w with
  | (.ok reply, w) =>
    let (reply, w) := presentReply w reply
    (.answered reply, w)
  | (.error fault, w) => (.refused fault, w)

end Workspace

/-- Runs an action at another table and turns back. -/
def Action.within {α : Type} (n : Nat) (a : Action Surroundings α) : Action Surroundings α := fun w =>
  let (answer, v) := a.run (Workspace.turnTo w n)
  (answer, Workspace.turnTo v (Workspace.here w))

end SymbolTable
