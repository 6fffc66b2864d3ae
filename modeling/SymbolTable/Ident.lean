import SymbolTable.Address

/-!
# Identities

A stored symbol is known by its `SymbolId`, a non-zero word. A `Scope` is the parent of a symbol:
the global one, which counts as zero, or a symbol. A `Key` is what a live symbol is found by: its id
once it is stored, and its address as long as everything about it is derived from there.
-/

namespace SymbolTable

/-- The number of a stored symbol. -/
structure SymbolId where
  val : UInt64
  ne_zero : val ≠ 0
  deriving DecidableEq, Repr

namespace SymbolId

/-- The id with this number; zero is none. -/
def ofRaw? (raw : UInt64) : Option SymbolId :=
  if h : raw = 0 then none else some ⟨raw, h⟩

/-- The text of an id. -/
def text (id : SymbolId) : String :=
  "sym:" ++ toString id.val.toNat

/-- Ids are ordered by their numbers. -/
def le (a b : SymbolId) : Bool :=
  a.val ≤ b.val

/-- Ids with the same number are the same. That the number is not zero is carried along by the
type. -/
@[ext] theorem ext {a b : SymbolId} (h : a.val = b.val) : a = b := by
  cases a; cases b; cases h; rfl

/-- Ids are told apart by their numbers. -/
theorem val_inj {a b : SymbolId} : a.val = b.val ↔ a = b :=
  ⟨ext, fun h => h ▸ rfl⟩

/-- The number of an id gives this id again. -/
@[simp] theorem ofRaw?_val (id : SymbolId) : ofRaw? id.val = some id := by
  simp [ofRaw?, id.ne_zero]

/-- A number gives the id that has it, which zero does not. This is how a word that was read becomes
an id, since ids are the words other than zero. -/
theorem ofRaw?_eq_some_iff {raw : UInt64} {id : SymbolId} : ofRaw? raw = some id ↔ raw = id.val := by
  constructor
  · intro h
    unfold ofRaw? at h
    split at h
    · cases h
    · cases h; rfl
  · rintro rfl
    exact ofRaw?_val id

end SymbolId

/-- The parent of a symbol. -/
inductive Scope where
  | global
  | of (id : SymbolId)
  deriving DecidableEq, Repr

namespace Scope

/-- The number of a scope; the global one is zero. -/
def raw : Scope → UInt64
  | .global => 0
  | .of id => id.val

/-- The scope with this number. -/
def ofRaw (raw : UInt64) : Scope :=
  match SymbolId.ofRaw? raw with
  | some id => .of id
  | none => .global

/-- The symbol that is the scope. -/
def symbol? : Scope → Option SymbolId
  | .global => none
  | .of id => some id

/-- Whether the scope is the global one. -/
def isGlobal (s : Scope) : Bool :=
  s = .global

/-- The text of a scope. -/
def text : Scope → String
  | .global => "Global"
  | .of id => "ns:" ++ toString id.val.toNat

instance : Inhabited Scope := ⟨.global⟩

/-- The number of a scope gives this scope again. -/
@[simp] theorem ofRaw_raw (s : Scope) : ofRaw s.raw = s := by
  cases s with
  | global => simp [raw, ofRaw, SymbolId.ofRaw?]
  | of id => simp [raw, ofRaw]

/-- Scopes are told apart by their numbers. -/
@[simp] theorem raw_inj {a b : Scope} : a.raw = b.raw ↔ a = b :=
  ⟨fun h => by rw [← ofRaw_raw a, h, ofRaw_raw], fun h => h ▸ rfl⟩

end Scope

/-- What a live symbol is found by. -/
inductive Key where
  /-- A symbol with a row. -/
  | stored (id : SymbolId)
  /-- A symbol without a row, which its address alone determines. -/
  | derived (address : Address)
  deriving DecidableEq, Repr

namespace Key

/-- The id of a stored symbol. -/
def id? : Key → Option SymbolId
  | .stored id => some id
  | .derived _ => none

/-- The text of a key. -/
def text : Key → String
  | .stored id => id.text
  | .derived a => "dyn:" ++ a.text

instance : Inhabited Key := ⟨.derived default⟩

end Key

end SymbolTable
