import SymbolTable.Action

/-!
# Names and scopes

What a symbol is called, and where it belongs. An unnamed row may borrow its name from another row,
and that one from a third; the parents of a row lead from scope to scope. Both walks are bounded by
a depth and visit no row twice.
-/

namespace SymbolTable.Action

variable {σ : Type}

/-! ## Names -/

/-- The name that a row shows. Unnamed rows that borrow their names are followed for `depth` steps
at most, and no row is visited twice. -/
def shownName : (depth : Nat) → (visited : List SymbolId) → Row → Action σ String
  | 0, _, r => look (·.derivedName r)
  | depth + 1, visited, r => do
    if r.provenance ≠ .default then return r.name
    else
      match ← look (·.rules.lender? r) with
      | none => look (·.derivedName r)
      | some id =>
        if visited.contains id then look (·.derivedName r)
        else
          match ← getRow id with
          | none => look (·.derivedName r)
          | some lender => shownName depth (id :: visited) lender

/-- The name that a row shows. -/
def displayName (r : Row) : Action σ String := do
  let depth ← look (·.settings.maxDepth)
  shownName depth [r.id] r

/-- The name that a handle shows. -/
def nameOf (h : HandleId) : Action σ String := do
  let s ← look (·.handle h)
  match s.row with
  | some r => displayName r
  | none => look (·.rules.derivedName s.kind s.address 0)

/-! ## Scopes -/

/-- Follows the parents from a scope, innermost first, past `depth` rows at most and past none of
those visited before. A parent without a row ends the walk, which began at `start`. -/
def climb (start : Scope) : (depth : Nat) → (visited : List SymbolId) → Scope → Action σ (List Row)
  | _, _, .global => pure []
  | 0, _, .of _ => fail (.circular (.endlessChain start))
  | depth + 1, visited, .of id =>
    if visited.contains id then fail (.circular (.endlessChain start))
    else do
      match ← getRow id with
      | none => return []
      | some r =>
        let rest ← climb start depth (id :: visited) r.parent
        return r :: rest

/-- The row of a scope and those of the scopes around it, innermost first. -/
def ancestors (scope : Scope) : Action σ (List Row) := do
  let depth ← look (·.settings.maxDepth)
  climb scope depth [] scope

/-- The names of a scope and of the scopes around it, outermost first. -/
def scopePath (scope : Scope) : Action σ (List String) := do
  let rows ← ancestors scope
  rows.reverse.mapM displayName

/-- How messages call a scope: by its qualified name, if it can be had. -/
def scopeText : Scope → Action σ String
  | .global => pure Scope.global.text
  | .of id => do
    match ← attempt (scopePath (.of id)) with
    | .ok path => return Name.qualified path
    | .error _ => return (Scope.of id).text

/-- Whether `scope` is the symbol's own or lies inside it. Where the parents do not lead to the
global scope, it cannot be ruled out. -/
def encloses (h : HandleId) (scope : Scope) : Action σ Bool := do
  match ← look fun t => (t.handle h).id? with
  | none => return false
  | some id =>
    match ← attempt (ancestors scope) with
    | .ok rows => return rows.any (·.id = id)
    | .error (.circular _) => return true
    | .error fault => fail fault

/-! ## Parents and namesakes -/

/-- Checks that a scope exists and may own symbols of this kind. -/
def checkParent (k : Kind) : Scope → Action σ Unit
  | .global => do
    let accepted ← look (·.rules.acceptsParent k none)
    if !accepted then fail (.input (.globalParent k))
  | .of id => do
    match ← getRow id with
    | none => fail (.input (.missingParent (.of id)))
    | some r =>
      match r.kind?.filter (·.isScope) with
      | none => fail (.input (.childlessParent id))
      | some parent =>
        let accepted ← look (·.rules.acceptsParent k (some parent))
        if !accepted then fail (.input (.wrongParent k parent))

/-- Whether a scope exists and may own symbols of this kind. -/
def acceptsParent (k : Kind) (scope : Scope) : Action σ Bool := do
  match ← attempt (checkParent k scope) with
  | .ok () => return true
  | .error (.input _) => return false
  | .error fault => fail fault

/-- Checks that no other symbol of the kind has the name, at this address and in this scope. -/
def checkDuplicate (a : Address) (name : String) (scope : Scope) (k : Kind)
    (except? : Option SymbolId) : Action σ Unit := do
  let rows ← rowsAt a
  if rows.any (Table.clashes name scope k except?) then
    let text ← scopeText scope
    fail (.duplicateName name text a.text)

end SymbolTable.Action
