/-!
# Progress and cancellation

A long scan asks a monitor before each step whether to go on, and tells it after each step how far
it has come. `Monitor σ` is any such party with a state of type `σ`; `Monitor.silent` never
interferes, and `Monitor.token` is the shared flag with counters. A token's progress never passes
its maximum (`Token.Sound`), since the maximum grows with it.
-/

namespace SymbolTable

/-- What a scan asks and tells. -/
structure Monitor (σ : Type) where
  /-- Whether to stop. -/
  poll : σ → Bool × σ
  /-- So many steps are done. -/
  advance : UInt64 → σ → σ
  /-- The expected number of steps; zero if it is not known. -/
  maximum : σ → UInt64
  /-- So many steps are expected. -/
  start : UInt64 → σ → σ

/-- A flag with two counters. -/
structure Token where
  cancelled : Bool
  progress : UInt64
  maximum : UInt64
  deriving DecidableEq, Repr

namespace Token

/-- A new token. -/
def fresh : Token := ⟨false, 0, 0⟩

/-- Raises the flag. -/
def cancel (t : Token) : Token :=
  { t with cancelled := true }

/-- Notes the progress; the maximum is raised to it. -/
def advance (n : UInt64) (t : Token) : Token :=
  { t with progress := n, maximum := max t.maximum n }

/-- Notes the expected number of steps, and no progress so far. -/
def start (n : UInt64) (t : Token) : Token :=
  { t with progress := 0, maximum := n }

/-- The progress does not pass the maximum. -/
def Sound (t : Token) : Prop :=
  t.progress ≤ t.maximum

instance (t : Token) : Decidable t.Sound :=
  inferInstanceAs (Decidable (t.progress ≤ t.maximum))

instance : Inhabited Token := ⟨fresh⟩

end Token

namespace Monitor

/-- The monitor that never stops a scan and listens to nothing. -/
def silent : Monitor Unit where
  poll s := (false, s)
  advance _ s := s
  maximum _ := 0
  start _ s := s

/-- The monitor that a token is. -/
def token : Monitor Token where
  poll t := (t.cancelled, t)
  advance := Token.advance
  maximum := Token.maximum
  start := Token.start

/-- A token that is raised when it is asked, after `patience` polls that found it down. -/
structure Watch where
  token : Token
  /-- How many polls may still pass; none if all may. -/
  patience : Option Nat
  deriving DecidableEq, Repr

/-- Asks a watched token. -/
def Watch.poll (w : Watch) : Bool × Watch :=
  if w.token.cancelled then (true, w)
  else
    match w.patience with
    | none => (false, w)
    | some 0 => (true, { w with token := w.token.cancel })
    | some (n + 1) => (false, { w with patience := some n })

/-- The monitor that a watched token is. -/
def watch : Monitor Watch where
  poll := Watch.poll
  advance n w := { w with token := w.token.advance n }
  maximum w := w.token.maximum
  start n w := { w with token := w.token.start n }

/-- Goes through `xs`, keeping what `keep` accepts. The monitor is asked before each element and
told after it; `done` elements came before. -/
def scan {σ α : Type} (m : Monitor σ) (keep : α → Bool) : (done : Nat) → List α → σ → List α × σ
  | _, [], s => ([], s)
  | done, x :: xs, s =>
    match m.poll s with
    | (true, s) => ([], s)
    | (false, s) =>
      let (found, s) := scan m keep (done + 1) xs (m.advance (UInt64.ofNat (done + 1)) s)
      (if keep x then x :: found else found, s)

end Monitor

end SymbolTable
