import SymbolTable.Table

/-!
# Actions on a table

An action reads and changes a table and answers, or is refused. What it changed before it was
refused stays changed. Whoever listens to the changes of a table is called in the middle of an
action, and may act on the table there and then; so an action runs on a `Situated` table, which has
beside it whatever its listener may read and change. Nothing but the listener looks there. Every
call of a store moves the clock on, since the outages of a store are planned by the moment of a
call.

The monad laws hold (`LawfulMonad`), and each primitive action has one equation for its run.
-/

namespace SymbolTable

/-- A table and what is around it. -/
structure Situated (σ : Type) where
  table : Table
  around : σ
  /-- How many calls of stores have been made. -/
  clock : Nat

/-- A call of a store has been made. -/
def Situated.tick {σ : Type} (s : Situated σ) : Situated σ :=
  { s with clock := s.clock + 1 }

/-- What happens when a table tells of a change. -/
abbrev Listener (σ : Type) :=
  Event → Situated σ → Situated σ

/-- An answer or a refusal, and what was changed on the way. -/
def Action (σ α : Type) :=
  Situated σ → Except Fault α × Situated σ

namespace Action

variable {σ α β : Type}

/-- Runs an action. -/
def run (a : Action σ α) (s : Situated σ) : Except Fault α × Situated σ :=
  a s

/-- Goes on with `f` where `a` answered. -/
def andThen (a : Action σ α) (f : α → Action σ β) : Action σ β := fun s =>
  match a.run s with
  | (.ok x, s) => (f x).run s
  | (.error fault, s) => (.error fault, s)

instance : Monad (Action σ) where
  pure x s := (.ok x, s)
  bind := andThen

/-- To do nothing after an action leaves it as it is. This and the next are the laws of the monad,
for which actions are written out as functions. -/
theorem andThen_pure (a : Action σ α) : andThen a pure = a := by
  funext s
  simp only [andThen, run]
  cases h : a s with
  | mk r t => cases r <;> rfl

/-- It makes no difference how actions that come one after the other are put in brackets, so a long
`do` block may be taken apart anywhere. -/
theorem andThen_assoc {γ : Type} (a : Action σ α) (f : α → Action σ β) (g : β → Action σ γ) :
    andThen (andThen a f) g = andThen a fun x => andThen (f x) g := by
  funext s
  simp only [andThen, run]
  cases h : a s with
  | mk r t => cases r <;> rfl

instance : LawfulMonad (Action σ) :=
  LawfulMonad.mk' _ andThen_pure (fun _ _ => rfl) andThen_assoc

/-! ## Primitive actions -/

/-- Refuses. -/
def fail (fault : Fault) : Action σ α := fun s =>
  (.error fault, s)

/-- Answers as the table does. -/
def ask (q : Table → Except Fault α) : Action σ α := fun s =>
  (q s.table, s)

/-- Answers what can be seen of the table. -/
def look (q : Table → α) : Action σ α := fun s =>
  (.ok (q s.table), s)

/-- Changes the table. -/
def change (f : Table → Table) : Action σ Unit := fun s =>
  (.ok (), { s with table := f s.table })

/-- Answers with the answer or the refusal of an action. -/
def attempt (a : Action σ α) : Action σ (Except Fault α) := fun s =>
  (.ok (a.run s).1, (a.run s).2)

/-- Answers or refuses as given. -/
def conclude : Except Fault α → Action σ α
  | .ok x => pure x
  | .error fault => fail fault

/-- Tells the listener of a change. -/
def emit (notify : Listener σ) (key : Key) (a : Address) (c : Change) : Action σ Unit := fun s =>
  (.ok (), notify ⟨key, a, c⟩ s)

/-- Asks the store. -/
def askStore (q : Store → Nat → Except StoreFault α) : Action σ α := fun s =>
  ((q s.table.store s.clock).mapError .store, s.tick)

/-- The row with this id. -/
def getRow (id : SymbolId) : Action σ (Option Row) :=
  askStore fun store now => store.get now id

/-- The rows at an address, by ascending id. -/
def rowsAt (a : Address) : Action σ (List Row) :=
  askStore fun store now => store.rowsAt now a

/-- The rows with this parent, by ascending id. -/
def rowsIn (parent : Scope) : Action σ (List Row) :=
  askStore fun store now => store.rowsIn now parent

/-- All rows, by ascending id. -/
def allRows : Action σ (List Row) :=
  askStore fun store now => store.scan now

/-- Has the store changed, which may change even where it answers with a failure. -/
def changeStore (f : Store → Nat → Except StoreFault α × Store) : Action σ α := fun s =>
  let (answer, store) := f s.table.store s.clock
  (answer.mapError .store, { s.tick with table := { s.table with store := store } })

/-- Puts a row into the store. -/
def putRow (r : Row) : Action σ Unit :=
  changeStore fun store now =>
    match store.put now r with
    | .ok store => (.ok (), store)
    | .error fault => (.error fault, store)

/-- Takes the row with this id out of the store, and says whether there was one. -/
def takeRow (id : SymbolId) : Action σ Bool :=
  changeStore fun store now =>
    match store.remove now id with
    | .ok (existed, store) => (.ok existed, store)
    | .error fault => (.error fault, store)

/-- Draws a fresh id. -/
def drawId : Action σ SymbolId :=
  changeStore fun store now => store.allocate now

section
variable (s : Situated σ)

@[simp] theorem run_pure (x : α) : run (pure x) s = (.ok x, s) := rfl

/-- The answer of the first action is handed on, with the surroundings as it leaves them. If it is
refused, what comes after it does not happen. -/
@[simp] theorem run_bind (a : Action σ α) (f : α → Action σ β) :
    run (a >>= f) s =
      match run a s with
      | (.ok x, s) => run (f x) s
      | (.error fault, s) => (.error fault, s) := rfl

@[simp] theorem run_fail (fault : Fault) : run (fail fault : Action σ α) s = (.error fault, s) := rfl

@[simp] theorem run_ask (q : Table → Except Fault α) : run (ask q) s = (q s.table, s) := rfl

@[simp] theorem run_look (q : Table → α) : run (look q) s = (.ok (q s.table), s) := rfl

@[simp] theorem run_change (f : Table → Table) :
    run (change f) s = (.ok (), { s with table := f s.table }) := rfl

@[simp] theorem run_attempt (a : Action σ α) :
    run (attempt a) s = (.ok (run a s).1, (run a s).2) := rfl

@[simp] theorem run_conclude (r : Except Fault α) : run (conclude r) s = (r, s) := by
  cases r <;> rfl

@[simp] theorem run_emit (notify : Listener σ) (key : Key) (a : Address) (c : Change) :
    run (emit notify key a c) s = (.ok (), notify ⟨key, a, c⟩ s) := rfl

end

end Action

end SymbolTable
