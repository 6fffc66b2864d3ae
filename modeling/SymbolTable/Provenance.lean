/-!
# Provenance of names

Where a symbol's name comes from, in rising order of confidence. A row keeps it in two bits.
-/

namespace SymbolTable

/-- Where a name comes from. -/
inductive Provenance where
  /-- There is no real name: what is shown is derived from the address. -/
  | default
  | analysis
  | imported
  | userDefined
  deriving DecidableEq, Repr

namespace Provenance

/-- All provenances, in rising order of confidence. -/
def all : List Provenance :=
  [.default, .analysis, .imported, .userDefined]

/-- The place in the order of confidence, which fits two bits. -/
def rank : Provenance → UInt8
  | .default => 0
  | .analysis => 1
  | .imported => 2
  | .userDefined => 3

/-- The provenance kept in the low two bits. -/
def ofBits (bits : UInt8) : Provenance :=
  if bits &&& 3 = 0 then .default
  else if bits &&& 3 = 1 then .analysis
  else if bits &&& 3 = 2 then .imported
  else .userDefined

/-- Whether `p` is less trusted than `q`. -/
def below (p q : Provenance) : Bool :=
  p.rank < q.rank

/-- The name of a provenance in messages. -/
def text : Provenance → String
  | .default => "Default"
  | .analysis => "Analysis"
  | .imported => "Imported"
  | .userDefined => "User Defined"

/-- The name of a provenance as an identifier, which has no blank in it. -/
def identifier : Provenance → String
  | .userDefined => "UserDefined"
  | p => p.text

/-- The rank of a provenance gives this provenance again. -/
@[simp] theorem ofBits_rank (p : Provenance) : ofBits p.rank = p := by
  cases p <;> decide

end Provenance

end SymbolTable
