import SymbolTable.Action.Refresh

/-!
# Moving symbols

Variables change their address one by one and tell of it (`setAddress`). When a block of memory
moves, every symbol in it moves by the same displacement (`relocate`): it takes its designation and
its journal along, and nobody is told.
-/

namespace SymbolTable.Action

variable {σ : Type}

/-- Gives a variable another address. -/
def setAddress (notify : Listener σ) (h : HandleId) (a : Address) : Action σ Unit := current h do
  let s ← look (·.handle h)
  let movable ← look (·.rules.movable s.kind)
  if !movable then fail (.state (.immovable s.kind))
  else if s.address = a then pure ()
  else
    write h fun r => { r with address := a }
    emit notify s.key a (.addressChanged s.address a)

/-- Moves a symbol along with a block. -/
def relocate (h : HandleId) (oldBase newBase : Address) : Action σ Unit := current h do
  let s ← look (·.handle h)
  let a := s.address.relocated oldBase newBase
  if a = s.address then pure ()
  else
    if s.isDerived then
      change fun t =>
        { t.updateHandle h (·.relocated a) with
          pool := t.pool.rekey (.derived s.address) (.derived a) }
    else
      write h fun r => { r with address := a }
      match s.id? with
      | some id => change (·.movePrimary s.address a id)
      | none => pure ()
    change fun t => { t with journal := t.journal.moveAddress s.address a }

end SymbolTable.Action
