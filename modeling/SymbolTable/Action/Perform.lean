import SymbolTable.Action.Marking
import SymbolTable.Action.Relocation
import SymbolTable.Action.Removal
import SymbolTable.Action.Renaming
import SymbolTable.Command
import SymbolTable.Reply

/-!
# Performing edits

Each edit is performed by the action that it stands for.
-/

namespace SymbolTable.Action

variable {σ : Type} (notify : Listener σ)

/-- Performs an edit. -/
def perform (h : HandleId) : Edit → Action σ (Reply HandleId)
  | .setProvenance p => (fun _ => .done) <$> setProvenance notify h p
  | .setPinned pinned => (fun _ => .done) <$> setPinned notify h pinned
  | .rename name scope p => (fun _ => .done) <$> rename notify h name scope p
  | .setName name p => (fun _ => .done) <$> setName notify h name p
  | .setScope scope => (fun _ => .done) <$> setScope notify h scope
  | .setAddress a => (fun _ => .done) <$> setAddress notify h a
  | .relocate oldBase newBase => (fun _ => .done) <$> relocate h oldBase newBase
  | .setData1 value => (fun _ => .done) <$> setData1 notify h value
  | .setData2 value => (fun _ => .done) <$> setData2 notify h value
  | .setData3 value => (fun _ => .done) <$> setData3 notify h value
  | .setPrimary => .flag <$> setPrimary notify h
  | .delete => .flag <$> delete notify h

end SymbolTable.Action
