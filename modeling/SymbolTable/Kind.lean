/-!
# Kinds of symbols

A symbol's kind never changes, and a row stores it as a tag. Tags and kinds determine each other
(`ofTag?_eq_some_iff`); the tag 2 is reserved and stands for no kind.
-/

namespace SymbolTable

/-- What kind of program element a symbol names. -/
inductive Kind where
  | label
  | library
  | namespaceScope
  | classScope
  | function
  | parameter
  | localVariable
  | globalVariable
  deriving DecidableEq, Repr

namespace Kind

/-- All kinds, in the order of their tags. -/
def all : List Kind :=
  [.label, .library, .namespaceScope, .classScope, .function, .parameter, .localVariable,
    .globalVariable]

/-- The tag a row stores. -/
def tag : Kind → UInt8
  | .label => 0
  | .library => 1
  | .namespaceScope => 3
  | .classScope => 4
  | .function => 5
  | .parameter => 6
  | .localVariable => 7
  | .globalVariable => 8

/-- The kind with this tag. -/
def ofTag? (t : UInt8) : Option Kind :=
  all.find? (·.tag = t)

/-- Whether symbols of the kind own other symbols. -/
def isScope : Kind → Bool
  | .library | .namespaceScope | .classScope | .function => true
  | _ => false

/-- The name of a kind in messages. -/
def text : Kind → String
  | .label => "Label"
  | .library => "Library"
  | .namespaceScope => "Namespace"
  | .classScope => "Class"
  | .function => "Function"
  | .parameter => "Parameter"
  | .localVariable => "Local Var"
  | .globalVariable => "Global Var"

/-- The name of a kind as an identifier, which has no blank in it. -/
def identifier : Kind → String
  | .localVariable => "LocalVar"
  | .globalVariable => "GlobalVar"
  | k => k.text

instance : Inhabited Kind := ⟨.label⟩

/-- The list of kinds has all of them, so what is checked for each in the list holds for every
kind. -/
theorem mem_all (k : Kind) : k ∈ all := by
  cases k <;> decide

/-- The tag of a kind gives this kind again. -/
@[simp] theorem ofTag?_tag (k : Kind) : ofTag? k.tag = some k := by
  cases k <;> decide

/-- A tag gives the kind that has it. Most bytes are the tag of none. -/
theorem ofTag?_eq_some_iff {t : UInt8} {k : Kind} : ofTag? t = some k ↔ t = k.tag := by
  constructor
  · intro h
    have := List.find?_some h
    simpa using (of_decide_eq_true this).symm
  · rintro rfl
    exact ofTag?_tag k

/-- Kinds are told apart by their tags. So a row whose tag is that of a kind stands for this kind
only. -/
theorem tag_inj {k l : Kind} : k.tag = l.tag ↔ k = l := by
  constructor
  · intro h
    have := ofTag?_tag l
    rw [← h, ofTag?_tag] at this
    exact Option.some.inj this
  · rintro rfl
    rfl

end Kind

end SymbolTable
