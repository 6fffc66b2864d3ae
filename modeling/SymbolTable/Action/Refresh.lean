import SymbolTable.Action

/-!
# Current handles

A handle's copy of its row is current as long as the store has not been written to since the copy
was taken. `refresh` makes the copy current or finds that the symbol is gone: its row was taken out,
or another kind of symbol stands under its id. What can be asked of a symbol, and what can be done
to it, starts from a current handle (`current`).
-/

namespace SymbolTable.Action

variable {σ α : Type}

/-- Refuses if the table was closed. -/
def ensureOpen : Action σ Unit :=
  ask fun t => if t.closed then .error (.state .closed) else .ok ()

/-- Marks a handle deleted, since its symbol is gone, and refuses. -/
def vanish (h : HandleId) (key : Key) : Action σ Unit := do
  change (·.abandon h key)
  fail (.state (.vanished key))

/-- Makes a handle's copy of its row current. -/
def refresh (h : HandleId) : Action σ Unit := do
  let s ← look (·.handle h)
  let now ← look (·.store.modificationCount)
  if s.deleted then fail (.state (.deleted s.key))
  else
    match s.row with
    | none => pure ()
    | some r =>
      if s.seenAt = now then pure ()
      else
        match ← getRow r.id with
        | some row =>
          if row.tag = r.tag then change (·.updateHandle h (·.refreshed row now))
          else vanish h s.key
        | none => vanish h s.key

/-- Does something to the symbol of a handle that is current. -/
def current (h : HandleId) (a : Action σ α) : Action σ α := do
  ensureOpen
  refresh h
  a

/-- Whether the symbol of a handle is there. -/
def isValid (h : HandleId) : Action σ Bool := do
  match ← attempt (current h (pure ())) with
  | .ok () => return true
  | .error _ => return false

/-- Writes the row of a handle, edited. -/
def write (h : HandleId) (edit : Row → Row) : Action σ Unit := do
  let s ← look (·.handle h)
  match s.row with
  | none => fail (.state (.rowless s.key))
  | some r =>
    putRow (edit r)
    change fun t => t.updateHandle h (·.refreshed (edit r) t.store.modificationCount)

/-- Tells the listener of a change to the symbol of a handle, where it lies now. -/
def emitFor (notify : Listener σ) (h : HandleId) (c : Change) : Action σ Unit := do
  let s ← look (·.handle h)
  emit notify s.key s.address c

end SymbolTable.Action
