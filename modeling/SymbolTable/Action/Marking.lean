import SymbolTable.Action.Naming
import SymbolTable.Action.Refresh

/-!
# Changing what a symbol carries

Its provenance, its pinned mark, its data and its designation as primary. A change that would change
nothing writes nothing and is not told.
-/

namespace SymbolTable.Action

variable {σ : Type} (notify : Listener σ)

/-- Changes the provenance and not the name. Only a rename leads from a default name to a chosen
one, or back. -/
def setProvenance (h : HandleId) (p : Provenance) : Action σ Unit := current h do
  let s ← look (·.handle h)
  let old := s.provenance
  if old = p then pure ()
  else if (old = .default) ≠ (p = .default) then fail (.input (.defaultCrossed s.key old p))
  else
    let name ← nameOf h
    ask (·.checkProvenance name s.address s.kind p)
    write h (·.withProvenance p)
    emitFor notify h (.provenanceChanged old p)

/-- Pins or unpins. -/
def setPinned (h : HandleId) (pinned : Bool) : Action σ Unit := current h do
  let s ← look (·.handle h)
  let pinnable ← look (·.rules.pinnable s.kind)
  if !pinnable then fail (.unsupported (.pinning s.kind))
  else
    match s.row with
    | none => pure ()
    | some r =>
      if r.isPinned = pinned then pure ()
      else
        write h (·.withPinned pinned)
        emitFor notify h (.pinnedChanged pinned)

/-- Edits the data, unless the row has them already. A derived symbol has no data. -/
def setData (h : HandleId) (has : Row → Bool) (edit : Row → Row) : Action σ Unit := current h do
  match (← look (·.handle h)).row with
  | none => pure ()
  | some r =>
    if has r then pure ()
    else
      write h edit
      emitFor notify h .dataChanged

/-- Sets the first datum. -/
def setData1 (h : HandleId) (value : Int64) : Action σ Unit :=
  setData notify h (·.data1 = value) fun r => { r with data1 := value }

/-- Sets the second datum. -/
def setData2 (h : HandleId) (value : Int32) : Action σ Unit :=
  setData notify h (·.data2 = value) fun r => { r with data2 := value }

/-- Sets the third datum. -/
def setData3 (h : HandleId) (value : Option String) : Action σ Unit :=
  setData notify h (·.data3 = value) fun r => { r with data3 := value }

/-- Designates a symbol as the primary one at its address, and says whether it was not so before.
Derived symbols and symbols of some kinds cannot be designated. -/
def setPrimary (h : HandleId) : Action σ Bool := current h do
  let s ← look (·.handle h)
  match s.id? with
  | none => return false
  | some id =>
    let able ← look fun t => (t.rules.capabilities s.kind).primary
    let previous ← look (·.facts.primaryAt s.address)
    if !able || previous = some id then return false
    else
      change fun t => { t with facts := t.facts.setPrimary s.address (some id) }
      emit notify s.key s.address (.primaryChanged (previous.map .stored))
      return true

end SymbolTable.Action
