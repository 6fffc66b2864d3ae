import SymbolTable.Action.Naming

/-!
# Creating symbols

A new symbol is described by a draft. What the rules make of the draft (`settled`) is checked
against the table before an id is drawn; once its row is written, the derived symbol of its address,
if there was a handle of it, is gone.
-/

namespace SymbolTable

/-- The description of a new symbol. -/
structure Draft where
  name : String
  kind : Kind
  /-- Ignored for kinds of symbols that lie nowhere. -/
  address : Address
  scope : Scope
  provenance : Provenance
  data1 : Int64
  data2 : Int32
  data3 : Option String
  deriving DecidableEq

/-- The draft as the rules want it: symbols that lie nowhere have no address, and a symbol whose
name is derived has no name of its own. -/
def Draft.settled (d : Draft) (rules : Rules) : Draft :=
  let a := if (rules.capabilities d.kind).located then d.address else Address.nowhere
  { d with address := a, provenance := rules.settle d.kind d.name a d.provenance }

/-- The row of the symbol that a draft describes. -/
def Draft.row (d : Draft) (id : SymbolId) : Row :=
  { Row.fresh id d.kind d.address (if d.provenance = .default then "" else d.name) d.scope
      d.provenance with
    data1 := d.data1
    data2 := d.data2
    data3 := d.data3 }

namespace Action

variable {σ : Type}

/-- Checks that a settled draft may be stored. -/
def checkDraft (d : Draft) : Action σ Unit := do
  ask (·.checkProvenance d.name d.address d.kind d.provenance)
  checkParent d.kind d.scope
  if d.provenance ≠ .default then
    ask (·.checkName d.name)
    checkDuplicate d.address d.name d.scope d.kind none

/-- Creates the symbol that a draft describes. -/
def create (notify : Listener σ) (draft : Draft) : Action σ HandleId := do
  let d ← look fun t => draft.settled t.rules
  checkDraft d
  let id ← drawId
  let row := d.row id
  putRow row
  change (·.dropDerived d.address)
  change (·.claimPrimary d.address id d.kind)
  let shown ← displayName row
  let now ← look (·.store.modificationCount)
  let s ← conclude (Handle.ofRow row now)
  let h ← look (·.handles.length)
  change fun t =>
    { t.adopt (.stored id) s with
      journal := t.journal.record ⟨d.address, .stored id, .added, shown⟩ }
  emit notify (.stored id) d.address .added
  return h

end Action

end SymbolTable
