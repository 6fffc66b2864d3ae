import SymbolTable.Action.Question
import SymbolTable.Command
import SymbolTable.Description
import SymbolTable.Reply

/-!
# Answering queries

Each query is answered by the question that it stands for. A query never tells a listener of
anything, and what it changes are handles, the pool and the listed members alone.
-/

namespace SymbolTable.Action

variable {σ : Type}

/-- All questions, one after the other, whether they are answered or refused. -/
def snapshot (h : HandleId) : Action σ (Snapshot HandleId) := do
  let s ← look (·.handle h)
  return {
    key := s.key
    kind := s.kind
    isDerived := s.isDerived
    isValid := ← isValid h
    isDerivedAfter := ← look fun t => (t.handle h).isDerived
    display := ← display h
    name := ← attempt (current h (nameOf h))
    path := ← attempt (current h (pathOf h))
    address := ← attempt (telling h (·.address))
    scope := ← attempt (telling h (·.parent))
    parent := ← attempt (parentOf h)
    isGlobal := ← attempt (telling h (·.parent.isGlobal))
    provenance := ← attempt (telling h (·.provenance))
    isPinned := ← attempt (current h (look (·.isPinned h)))
    data1 := ← attempt (telling h (·.data1))
    data2 := ← attempt (telling h (·.data2))
    data3 := ← attempt (telling h (·.data3))
    isPrimary := ← attempt (current h (look (·.isPrimary h)))
    isEntryPoint := ← attempt (current h (look (·.isEntryPoint h)))
    referenceCount := ← attempt (referenceCount h)
    hasReferences := ← attempt (hasReferences h 1)
    hasSeveralReferences := ← attempt (hasReferences h 2) }

/-- Scans the references under a token, and answers with the token after the scan. -/
def watchedReferences (h : HandleId) (w : Monitor.Watch) : Action σ (Reply HandleId) := do
  match ← attempt (references Monitor.watch h w) with
  | .ok (found, w) => return .watched (.ok found) w.token
  | .error fault => return .watched (.error fault) w.token

/-- Answers a query. -/
def answer (h : HandleId) : Query → Action σ (Reply HandleId)
  | .isValid => .flag <$> isValid h
  | .isDerived => look fun t => .flag (t.handle h).isDerived
  | .key => look fun t => .text (t.handle h).key.text
  | .display => .text <$> display h
  | .description => look fun t => .text (t.handle h).description
  | .name => .text <$> current h (nameOf h)
  | .qualifiedName bare => .text <$> qualifiedName h bare
  | .path => .texts <$> current h (pathOf h)
  | .address => .address <$> telling h (·.address)
  | .scope => .scope <$> telling h (·.parent)
  | .parent => .symbol <$> parentOf h
  | .isGlobal => .flag <$> telling h (·.parent.isGlobal)
  | .provenance => .provenance <$> telling h (·.provenance)
  | .isPinned => .flag <$> current h (look (·.isPinned h))
  | .data1 => .long <$> telling h (·.data1)
  | .data2 => .int <$> telling h (·.data2)
  | .data3 => .note <$> telling h (·.data3)
  | .isPrimary => .flag <$> current h (look (·.isPrimary h))
  | .isEntryPoint => .flag <$> current h (look (·.isEntryPoint h))
  | .encloses scope => .flag <$> current h (encloses h scope)
  | .referenceCount => .count <$> referenceCount h
  | .hasReferences => .flag <$> hasReferences h 1
  | .hasSeveralReferences => .flag <$> hasReferences h 2
  | .references none => (.references ·.1) <$> references Monitor.silent h ()
  | .references (some w) => watchedReferences h w
  | .snapshot => .snapshot <$> snapshot h

end SymbolTable.Action
