import SymbolTable.Action.Lookup
import SymbolTable.Action.Naming

/-!
# Deleting symbols

A symbol is deleted after everything in it. A symbol that is being deleted is passed over, which is
what ends the deletion where parents go round in a circle, and where a listener deletes what is
being deleted. Each deletion that is going on has marked another handle, so no more of them are
nested than there are handles and rows (`Table.deletionDepth`).

This bound is taken once, when a deletion begins. Members that are deleted on the way have rows by
then, so it suffices unless a listener creates scopes inside one another in the middle of the
deletion, and more of them than there were handles and rows before. Then what lies deeper than the
bound is passed over, like what is being deleted already, and stays. No bound that is taken
beforehand could do without this: a listener that goes on in this way keeps a deletion without a
bound from ending.
-/

namespace SymbolTable

/-- More than how many deletions can be nested. -/
def Table.deletionDepth (t : Table) : Nat :=
  t.handles.length + t.store.rowCount + 1

namespace Action

variable {σ : Type} (notify : Listener σ)

/-- The row at an address that comes first among those that may be primary. -/
def successorAt (a : Address) : Action σ (Option SymbolId) := do
  let rows ← rowsAt a
  look fun t => (rows.find? (·.kind?.any (t.rules.capabilities · |>.primary))).map (·.id)

/-- Marks whether a deletion is going on. -/
def markDeleting (h : HandleId) (deleting : Bool) : Action σ Unit :=
  change (·.updateHandle h fun s => { s with deleting := deleting })

/-- Hands the designation of a symbol that is gone to the next one at its address. -/
def passPrimary (a : Address) (id : SymbolId) : Action σ Unit := do
  if (← look (·.facts.primaryAt a)) = some id then
    let successor ← successorAt a
    change fun t => { t with facts := t.facts.setPrimary a successor }

/-- Deletes a member of a scope, unless it is gone or is being deleted already. -/
def clearMember (delete : HandleId → Action σ Bool) (id : SymbolId) : Action σ Unit := do
  match ← lookup id with
  | none => pure ()
  | some child =>
    if ← look fun t => (t.handle child).deleting then pure ()
    else discard (delete child)

/-- Deletes the members of a scope. -/
def clearScope (delete : HandleId → Action σ Bool) (scope : Scope) : Action σ Unit := do
  let rows ← rowsIn scope
  rows.forM fun r => clearMember delete r.id

/-- Takes the row of a handle out, with which the handle is gone, and says whether there was one. -/
def takeOut (h : HandleId) (id : SymbolId) : Action σ Bool := do
  let existed ← takeRow id
  change (·.release h id)
  return existed

/-- Takes the row of a symbol out, in which there is nothing left, and tells of it. -/
def removeRow (h : HandleId) (r : Row) : Action σ Bool := do
  let name ← displayName r
  let existed ← takeOut h r.id
  passPrimary r.address r.id
  change fun t =>
    { t with
      references := (t.references.retarget r.address r.id .primary).2
      journal := t.journal.record ⟨r.address, .stored r.id, .removed, name⟩ }
  emit notify (.stored r.id) r.address (.removed name)
  return existed

/-- Takes the row of a symbol out, after those in it, and says whether there was one. -/
def removeWith (delete : HandleId → Action σ Bool) (h : HandleId) : Action σ Bool := do
  let s ← look (·.handle h)
  match s.row with
  | none => return false
  | some r =>
    if s.kind.isScope then clearScope delete (.of r.id)
    removeRow notify h r

/-- Deletes the symbol of a handle that is marked, unless it is gone or derived. -/
def deleteMarked (delete : HandleId → Action σ Bool) (h : HandleId) : Action σ Bool := do
  match ← attempt (refresh h) with
  | .error (.state _) => return false
  | .error fault => fail fault
  | .ok () =>
    if ← look fun t => (t.handle h).isDerived then return false
    else removeWith notify delete h

/-- Deletes a symbol, with at most `depth` deletions nested. One that is nested deeper does nothing,
and says that there was no row. -/
def deleteWithin : (depth : Nat) → HandleId → Action σ Bool
  | 0, _ => pure false
  | depth + 1, h => do
    ensureOpen
    if ← look fun t => (t.handle h).deleting then return false
    else
      markDeleting h true
      let answer ← attempt (deleteMarked notify (deleteWithin depth) h)
      markDeleting h false
      conclude answer

/-- Deletes a symbol and everything in it, and says whether a row was taken out. -/
def delete (h : HandleId) : Action σ Bool := do
  let depth ← look (·.deletionDepth)
  deleteWithin notify depth h

end Action

end SymbolTable
