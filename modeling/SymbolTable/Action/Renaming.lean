import SymbolTable.Action.Lookup
import SymbolTable.Action.Naming

/-!
# Renaming and moving between scopes

A rename gives a symbol a name, a scope and a provenance at once. Whether it may happen, and what it
comes to, is settled before anything is written (`Action.planRename`); a rename that would change
nothing has no plan. A derived symbol gets a row by being renamed. Unnamed functions that borrow
their name from a renamed function are told of along with it.
-/

namespace SymbolTable

/-- What a rename comes to. -/
structure Rename where
  /-- The name to be stored, empty if the symbol shall show a derived one. -/
  name : String
  scope : Scope
  provenance : Provenance
  /-- The name shown so far. -/
  oldName : String
  oldScope : Scope
  /-- Whether the name changes. -/
  renames : Bool
  deriving DecidableEq

/-- Whether the scope changes. -/
def Rename.moves (r : Rename) : Bool :=
  r.oldScope ≠ r.scope

/-- The row after the rename. -/
def Rename.apply (r : Rename) (row : Row) : Row :=
  { row with parent := r.scope, name := r.name }.withProvenance r.provenance

namespace Action

variable {σ : Type} (notify : Listener σ)

/-- Checks that a symbol shown as `shown` may move into another scope. -/
def checkMove (h : HandleId) (shown : String) (scope : Scope) : Action σ Unit := do
  checkParent (← look fun t => (t.handle h).kind) scope
  if ← encloses h scope then
    let text ← scopeText scope
    fail (.circular (.intoItself shown text))

/-- What it comes to if a symbol shown as `shown` gets a name, a scope that it may move to and a
provenance, if it changes anything. The name is checked unless the symbol shall show a derived
one. -/
def proposeRename (s : Handle) (shown name : String) (scope : Scope) (p : Provenance) :
    Action σ (Option Rename) := do
  if p = .default then
    let plan : Rename := ⟨"", scope, p, shown, s.parent, s.provenance ≠ .default⟩
    return if plan.renames || plan.moves then some plan else none
  else
    ask (·.checkName name)
    let plan : Rename := ⟨name, scope, p, shown, s.parent, shown ≠ name⟩
    if plan.renames || plan.moves then
      checkDuplicate s.address name scope s.kind s.id?
      return some plan
    else return none

/-- What the rename of a symbol comes to, if it changes anything. -/
def planRename (h : HandleId) (name : String) (scope : Scope) (wanted : Provenance) :
    Action σ (Option Rename) := do
  let s ← look (·.handle h)
  let shown ← nameOf h
  ask (·.checkEditable h shown)
  let p ← look (·.rules.settle s.kind name s.address wanted)
  ask (·.checkProvenance name s.address s.kind p)
  if s.parent ≠ scope then checkMove h shown scope
  proposeRename s shown name scope p

/-- The handles of the unnamed functions that borrow their name from the symbol of a handle. -/
def borrowers (h : HandleId) : Action σ (List HandleId) := do
  let s ← look (·.handle h)
  match s.id? with
  | none => return []
  | some id =>
    if s.kind ≠ .function then return []
    else
      let rows ← allRows
      let rules ← look (·.rules)
      lookupEach ((rows.filter (rules.lender? · = some id)).map (·.id))

/-- The name of a handle that is made current. -/
def currentName (h : HandleId) : Action σ String :=
  current h (nameOf h)

/-- Gives a derived symbol a row. -/
def promote (h : HandleId) (r : Rename) : Action σ Unit := do
  let s ← look (·.handle h)
  let id ← drawId
  let row := Row.fresh id s.kind s.address r.name r.scope r.provenance
  putRow row
  change (·.embody h row)
  change (·.claimPrimary s.address id s.kind)
  let name ← nameOf h
  change fun t => { t with journal := t.journal.record ⟨s.address, .stored id, .added, name⟩ }
  emit notify (.stored id) s.address .added
  if !r.scope.isGlobal then
    emit notify (.stored id) s.address (.scopeChanged .global r.scope)
  if name ≠ r.oldName then
    emit notify (.stored id) s.address (.renamed r.oldName name)

/-- Tells that a borrower, which used to be shown as `old`, is shown under another name. -/
def announceBorrower (h : HandleId) (old : String) : Action σ Unit := do
  let new ← currentName h
  let key ← look fun t => (t.handle h).key
  let a ← current h (look fun t => (t.handle h).address)
  emit notify key a (.renamed old new)

/-- Notes and tells that the symbol of a handle, under a key and at an address, and its borrowers
with it, are shown under other names than before. -/
def announceName (h : HandleId) (key : Key) (a : Address) (old : String)
    (borrowers : List (HandleId × String)) : Action σ Unit := do
  let new ← nameOf h
  change fun t => { t with journal := t.journal.record ⟨a, key, .renamed, old ++ " to " ++ new⟩ }
  emit notify key a (.renamed old new)
  borrowers.forM fun b => announceBorrower notify b.1 b.2

/-- Carries out the rename of a stored symbol. -/
def carryOut (h : HandleId) (r : Rename) : Action σ Unit := do
  let s ← look (·.handle h)
  let borrowers ← borrowers h
  let names ← borrowers.mapM currentName
  write h r.apply
  if r.moves then
    emit notify s.key s.address (.scopeChanged r.oldScope r.scope)
  if r.renames then
    announceName notify h s.key s.address r.oldName (borrowers.zip names)

/-- Gives a symbol a name, a scope and a provenance. -/
def rename (h : HandleId) (name : String) (scope : Scope) (p : Provenance) : Action σ Unit :=
  current h do
    match ← planRename h name scope p with
    | none => pure ()
    | some r =>
      if ← look fun t => (t.handle h).isDerived then promote notify h r
      else carryOut notify h r

/-- Gives a symbol a name and a provenance. -/
def setName (h : HandleId) (name : String) (p : Provenance) : Action σ Unit := current h do
  let scope ← look fun t => (t.handle h).parent
  rename notify h name scope p

/-- Moves a symbol into another scope. -/
def setScope (h : HandleId) (scope : Scope) : Action σ Unit := current h do
  let name ← nameOf h
  let p ← look fun t => (t.handle h).provenance
  rename notify h name scope p

end Action

end SymbolTable
