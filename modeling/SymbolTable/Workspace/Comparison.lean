import SymbolTable.Action.Question
import SymbolTable.Workspace

/-!
# Comparing symbols

Two symbols, of one table or of two, are equal if they are of one kind, lie at one address and show
one name, and if their parents are equal in the same way. The comparison walks up both chains of
parents in step, as far as the first symbol's table lets a walk go, and is cut short where both
chains meet.
-/

namespace SymbolTable.Action

/-- An action of a symbol, run at its table. -/
def of {α : Type} (x : Locator) (a : HandleId → Action Surroundings α) : Action Surroundings α :=
  within x.table (a x.handle)

/-- The kind of a symbol. -/
def kindOf (x : Locator) : Action Surroundings Kind :=
  of x fun h => look fun t => (t.handle h).kind

/-- Whether two symbols are of one kind, lie at one address and show one name. -/
def alike (x y : Locator) : Action Surroundings Bool := do
  if (← kindOf x) ≠ (← kindOf y) then return false
  else
    let a ← of x (telling · (·.address))
    let b ← of y (telling · (·.address))
    if a ≠ b then return false
    else
      let n ← of x fun h => current h (nameOf h)
      let m ← of y fun h => current h (nameOf h)
      return n = m

/-- The parent of a symbol. -/
def parentLocator (x : Locator) : Action Surroundings (Option Locator) := do
  let h? ← of x parentOf
  return h?.map (⟨x.table, ·⟩)

/-- Whether two chains of parents are equal, as far as `depth` steps can tell. -/
def alikeFrom : (depth : Nat) → Option Locator → Option Locator → Action Surroundings Bool
  | 0, _, _ => pure false
  | _ + 1, none, none => pure true
  | _ + 1, none, some _ => pure false
  | _ + 1, some _, none => pure false
  | depth + 1, some x, some y => do
    if x = y then return true
    else if !(← alike x y) then return false
    else
      let p ← parentLocator x
      let q ← parentLocator y
      alikeFrom depth p q

/-- Whether two symbols are there and equal. -/
def structurallyEqual (x y : Locator) : Action Surroundings Bool := do
  if !(← of x isValid) then return false
  else if !(← of y isValid) then return false
  else if x = y then return true
  else if !(← alike x y) then return false
  else
    let depth ← of x fun _ => look (·.settings.maxDepth)
    let p ← parentLocator x
    let q ← parentLocator y
    alikeFrom depth p q

/-- Compares two symbols, and their keys. A comparison that is refused found no equality. -/
def compared (x y : Locator) : Action Surroundings (Reply HandleId) := do
  let answer ← attempt (structurallyEqual x y)
  let again ← attempt (structurallyEqual x y)
  let k ← of x fun h => look fun t => (t.handle h).key
  let l ← of y fun h => look fun t => (t.handle h).key
  return .compared answer (again.toOption = some true) (k = l)

end SymbolTable.Action
