import SymbolTable.Action.Answer
import SymbolTable.Action.Perform
import SymbolTable.Workspace.Comparison

/-!
# Reactions

The listener of a workspace logs every change of a table that is observed, and then runs the first
of the table's reactions that waits for the change, in the middle of the action that made it. A
reaction runs once, and what it does may set off others: so the reactions that wait are more than
any number of them that are nested (`Workspace.pendingReactions`).
-/

namespace SymbolTable.Workspace

/-- Runs a command on a symbol, and leaves the table of the symbol at hand. -/
def execute (notify : Listener Surroundings) (x : Locator) (c : Command) (w : Workspace) :
    Outcome × Workspace :=
  let w := w.turnTo x.table
  match c with
  | .query q => w.carry (Action.answer x.handle q)
  | .edit e => w.carry (Action.perform notify x.handle e)
  | .compare other =>
    match w.shown? other with
    | none => (.unknownSymbol, w)
    | some y => w.carry (Action.compared x y)

/-- Runs a command on the symbol with this number, and turns back. -/
def executeShown (notify : Listener Surroundings) (number : Nat) (c : Command) (w : Workspace) :
    Outcome × Workspace :=
  match w.shown? number with
  | none => (.unknownSymbol, w)
  | some x =>
    let (outcome, v) := execute notify x c w
    (outcome, v.turnTo w.here)

/-- Takes the first reaction that waits for an event off the list of the table at hand. -/
def takeReaction (w : Workspace) (e : Event) : Option (Reaction × Workspace) :=
  match w.table.reactions.find? (·.awaits e) with
  | none => none
  | some r =>
    let rest := w.table.reactions.eraseP (·.awaits e)
    some (r, w.changeTable fun t => { t with reactions := rest })

/-- Adds an event to the log of the table at hand. -/
def logEvent (w : Workspace) (e : Event) : Workspace :=
  w.changeTable fun t => { t with log := t.log ++ [e] }

/-- Listens to the table at hand, with at most `depth` reactions nested. -/
def listen : (depth : Nat) → Listener Surroundings
  | 0, e, w => if w.table.observed then logEvent w e else w
  | depth + 1, e, w =>
    if w.table.observed then
      match (logEvent w e).takeReaction e with
      | none => logEvent w e
      | some (r, w) =>
        let (outcome, w) := executeShown (listen depth) r.target r.command w
        w.noteOutcome outcome
    else w

/-- The listener of a workspace, which lets as many reactions nest as there are. -/
def listener : Listener Surroundings := fun e w =>
  listen (pendingReactions w) e w

end SymbolTable.Workspace
