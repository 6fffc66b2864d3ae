import SymbolTable.Dict
import SymbolTable.Ident

/-!
# Facts about the program

What a symbol table asks of the program around it: which symbol is primary at an address, which
addresses are entered from outside, and which registers have an address of their own.
-/

namespace SymbolTable

/-- Facts about the program. -/
structure Facts where
  primaries : Dict Address SymbolId
  entryPoints : List Address
  registers : Dict Address (List String)

namespace Facts

/-- No facts. -/
def empty : Facts := ⟨Dict.empty, [], Dict.empty⟩

/-- The primary symbol at an address, if one is designated. -/
def primaryAt (f : Facts) (a : Address) : Option SymbolId :=
  f.primaries.get? a

/-- Designates the primary symbol at an address, or no symbol. -/
def setPrimary (f : Facts) (a : Address) : Option SymbolId → Facts
  | some id => { f with primaries := f.primaries.insert a id }
  | none => { f with primaries := f.primaries.erase a }

/-- Whether an address is entered from outside. -/
def isEntryPoint (f : Facts) (a : Address) : Bool :=
  f.entryPoints.contains a

/-- Makes an address an entry point. -/
def addEntryPoint (f : Facts) (a : Address) : Facts :=
  if f.isEntryPoint a then f else { f with entryPoints := a :: f.entryPoints }

/-- The names of the registers at an address. -/
def registersAt (f : Facts) (a : Address) : List String :=
  (f.registers.get? a).getD []

/-- Names a register at an address. -/
def addRegister (f : Facts) (a : Address) (name : String) : Facts :=
  { f with registers := f.registers.insert a (f.registersAt a ++ [name]) }

instance : Inhabited Facts := ⟨empty⟩

/-- At one address another symbol may be designated, and the others stay. -/
@[simp] theorem primaryAt_setPrimary (f : Facts) (a b : Address) (id? : Option SymbolId) :
    (f.setPrimary a id?).primaryAt b = if b = a then id? else f.primaryAt b := by
  cases id? <;> simp [setPrimary, primaryAt]

end Facts

end SymbolTable
