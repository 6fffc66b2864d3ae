import SymbolTable.Dict
import SymbolTable.Ident

/-!
# References

A reference leads from one address to another and belongs either to a certain symbol or to whichever
symbol is primary at its destination. The index lists references by destination, in the order in
which they were added.
-/

namespace SymbolTable

/-- Whose reference it is. -/
inductive Owner where
  /-- The primary symbol at the destination. -/
  | primary
  | symbol (id : SymbolId)
  deriving DecidableEq, Repr

/-- The text of an owner. -/
def Owner.text : Owner → String
  | .primary => "Primary"
  | .symbol id => id.text

/-- What a reference does with its destination. -/
inductive Usage where
  | call
  | jump
  | read
  | write
  | data
  deriving DecidableEq, Repr

/-- The name of a usage. -/
def Usage.text : Usage → String
  | .call => "Call"
  | .jump => "Jump"
  | .read => "Read"
  | .write => "Write"
  | .data => "Data"

/-- A reference from one address to another. -/
structure Reference where
  source : Address
  target : Address
  usage : Usage
  owner : Owner
  deriving DecidableEq, Repr

/-- References by destination. -/
structure References where
  byTarget : Dict Address (List Reference)

namespace References

/-- The index without references. -/
def empty : References := ⟨Dict.empty⟩

/-- The references into an address, in the order in which they were added. -/
def into (x : References) (target : Address) : List Reference :=
  (x.byTarget.get? target).getD []

/-- How many references lead to an address. -/
def count (x : References) (target : Address) : Nat :=
  (x.into target).length

/-- Replaces the references into an address. -/
def withInto (x : References) (target : Address) (rs : List Reference) : References :=
  ⟨x.byTarget.insert target rs⟩

/-- Adds a reference. -/
def add (x : References) (r : Reference) : References :=
  x.withInto r.target (x.into r.target ++ [r])

/-- Removes the references from `source` to `target`, and says how many there were. -/
def remove (x : References) (source target : Address) : Nat × References :=
  (((x.into target).filter (·.source = source)).length,
    x.withInto target ((x.into target).filter (·.source ≠ source)))

/-- A reference with another owner, if `id` owns it. -/
def handOver (id : SymbolId) (owner : Owner) (r : Reference) : Reference :=
  if r.owner = .symbol id then { r with owner := owner } else r

/-- Gives the references to `target` that `id` owns to another owner, and says how many those
are. -/
def retarget (x : References) (target : Address) (id : SymbolId) (owner : Owner) :
    Nat × References :=
  (((x.into target).filter (·.owner = .symbol id)).length,
    x.withInto target ((x.into target).map (handOver id owner)))

instance : Inhabited References := ⟨empty⟩

/-- The references to one address may be replaced, and those to the others stay. -/
@[simp] theorem into_withInto (x : References) (target a : Address) (rs : List Reference) :
    (x.withInto target rs).into a = if a = target then rs else x.into a := by
  simp only [into, withInto, Dict.get?_insert]
  split <;> rfl

end References

end SymbolTable
