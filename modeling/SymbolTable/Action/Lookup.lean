import SymbolTable.Action.Refresh

/-!
# Finding symbols

There is one live handle for a key: a lookup answers with the pooled handle, and makes one where the
pool has none. Rows are listed by ascending id, except that the primary symbol at an address comes
first. A memory address without a row has a derived symbol.
-/

namespace SymbolTable.Action

variable {σ : Type}

/-- The pooled handle of a key, or else the one that `make` makes, if any, which is pooled then. -/
def pooled (key : Key) (make : Action σ (Option Handle)) : Action σ (Option HandleId) := do
  match ← look (·.pool.get? key) with
  | some h => return some h
  | none =>
    match ← make with
    | none => return none
    | some s =>
      let h ← look (·.handles.length)
      change (·.adopt key s)
      return some h

/-- A new handle of the row with this id, if there is one. -/
def handleOfRow (id : SymbolId) : Action σ (Option Handle) := do
  let now ← look (·.store.modificationCount)
  match ← getRow id with
  | none => return none
  | some r => some <$> conclude (Handle.ofRow r now)

/-- The handle of the stored symbol with this id. A pooled handle that turns out to be gone is
replaced, since a symbol of another kind may stand under the id. -/
def lookup (id : SymbolId) : Action σ (Option HandleId) := do
  match ← look (·.pool.get? (.stored id)) with
  | none => pooled (.stored id) (handleOfRow id)
  | some h =>
    match ← attempt (refresh h) with
    | .ok () => return some h
    | .error (.state _) => pooled (.stored id) (handleOfRow id)
    | .error fault => fail fault

/-- The handles of the stored symbols with these ids. -/
def lookupEach (ids : List SymbolId) : Action σ (List HandleId) := do
  let found ← ids.mapM lookup
  return found.filterMap id

/-- The handle of the symbol derived from an address, which has to be a memory address without
rows. -/
def derivedAt (a : Address) : Action σ (Option HandleId) := do
  if !a.isMemory then return none
  else
    let rows ← rowsAt a
    if !rows.isEmpty then return none
    else pooled (.derived a) (pure (some (Handle.derived a)))

/-- Whether one id comes before another where `primary?` comes first. No id comes before all. -/
def comesFirst (primary? : Option SymbolId) (a b : Option SymbolId) : Bool :=
  if (a = primary?) = (b = primary?) then
    match a, b with
    | none, _ => true
    | some _, none => false
    | some a, some b => a.le b
  else a = primary?

/-- The handles of the symbols at an address, the primary one first. -/
def symbolsAt (a : Address) : Action σ (List HandleId) := do
  let rows ← rowsAt a
  if rows.isEmpty then
    if (← look (·.references.count a)) = 0 then return []
    else return (← derivedAt a).toList
  else
    let primary? ← look (·.facts.primaryAt a)
    let found ← lookupEach (rows.map (·.id))
    look fun t =>
      found.mergeSort fun h k => comesFirst primary? (t.handle h).id? (t.handle k).id?

/-- The ids of the members of a scope, which are listed anew after every write to the store. -/
def memberIds (scope : Scope) : Action σ (List SymbolId) := do
  let now ← look (·.store.modificationCount)
  match ← look fun t => (t.members.get? scope).filter (·.1 = now) with
  | some (_, ids) => return ids
  | none =>
    let ids := (← rowsIn scope).map (·.id)
    change fun t => { t with members := t.members.insert scope (now, ids) }
    return ids

/-- The handles of the members of a scope. -/
def symbolsIn (scope : Scope) : Action σ (List HandleId) := do
  lookupEach (← memberIds scope)

/-- The handles of all stored symbols. -/
def allSymbols : Action σ (List HandleId) := do
  lookupEach ((← allRows).map (·.id))

/-- The handle of the primary symbol at an address: the designated one, or else the derived symbol
of an address that is referred to. -/
def primaryAt (a : Address) : Action σ (Option HandleId) := do
  let designated ← match ← look (·.facts.primaryAt a) with
    | some id => lookup id
    | none => pure none
  match designated with
  | some h => return some h
  | none =>
    if (← look (·.references.count a)) = 0 then return none
    else derivedAt a

end SymbolTable.Action
