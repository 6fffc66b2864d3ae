import SymbolTable.Action.Lookup
import SymbolTable.Action.Naming

/-!
# Questions to a symbol

What a current handle tells about its symbol. A derived symbol is named after its address, lies in
the global scope, is not pinned and has no data.
-/

namespace SymbolTable

namespace Table

/-- Whether the symbol of a handle is pinned. -/
def isPinned (t : Table) (h : HandleId) : Bool :=
  t.rules.pinnable (t.handle h).kind && (t.handle h).row.any (·.isPinned)

/-- Whether the symbol of a handle lies at an entry point. -/
def isEntryPoint (t : Table) (h : HandleId) : Bool :=
  t.facts.isEntryPoint (t.handle h).address

end Table

namespace Action

variable {σ α : Type}

/-- The names from the outermost scope down to the symbol of a handle. -/
def pathOf (h : HandleId) : Action σ (List String) := do
  let scopes ← scopePath (← look fun t => (t.handle h).parent)
  let name ← nameOf h
  return scopes ++ [name]

/-- Whether no row but the one with this id lies at an address. -/
def isAlone (a : Address) (id? : Option SymbolId) : Action σ Bool := do
  let rows ← rowsAt a
  return rows.all (some ·.id = id?)

/-- How many references belong to a symbol, counting to `limit` at most. All references to the
address do if no other symbol lies there. -/
def countOwned (h : HandleId) (limit : Option Nat) : Action σ Nat := do
  let s ← look (·.handle h)
  let alone ← isAlone s.address s.id?
  let refs ← look (·.references.into s.address)
  let owns ← look (·.handleOwns h)
  let owned := if alone then refs else refs.filter owns
  return (limit.elim owned owned.take).length

/-- Asks for something that a current handle tells itself. -/
def telling (h : HandleId) (q : Handle → α) : Action σ α :=
  current h (look fun t => q (t.handle h))

/-- The name shown, in full or bare. -/
def qualifiedName (h : HandleId) (bare : Bool) : Action σ String :=
  if bare then current h (nameOf h)
  else Name.qualified <$> current h (pathOf h)

/-- The handle of the parent, unless it is the global scope. -/
def parentOf (h : HandleId) : Action σ (Option HandleId) := current h do
  match (← look fun t => (t.handle h).parent) with
  | .global => return none
  | .of id => lookup id

/-- How many references belong to a symbol. -/
def referenceCount (h : HandleId) : Action σ Nat :=
  current h (countOwned h none)

/-- Whether at least `n` references belong to a symbol. -/
def hasReferences (h : HandleId) (n : Nat) : Action σ Bool :=
  current h ((n ≤ ·) <$> countOwned h (some n))

/-- The text of a symbol: its name, or a remark that it is gone. -/
def display (h : HandleId) : Action σ String := do
  match ← attempt (current h (nameOf h)) with
  | .ok name => return name
  | .error _ =>
    let key ← look fun t => (t.handle h).key
    return "<invalid " ++ key.text ++ ">"

end Action

/-- The references to an address that belong to a symbol, as a scan under a monitor finds them. The
monitor is told how many references there are if it expects none. -/
def Table.scanReferences {μ : Type} (t : Table) (m : Monitor μ) (h : HandleId) (watcher : μ) :
    List Reference × μ :=
  let refs := t.references.into (t.handle h).address
  let watcher :=
    if m.maximum watcher = 0 then m.start (UInt64.ofNat refs.length) watcher else watcher
  m.scan (t.handleOwns h) 0 refs watcher

/-- The references that belong to a symbol, and the monitor after the scan. -/
def Action.references {σ μ : Type} (m : Monitor μ) (h : HandleId) (watcher : μ) :
    Action σ (List Reference × μ) :=
  Action.current h (Action.look (·.scanReferences m h watcher))

end SymbolTable
