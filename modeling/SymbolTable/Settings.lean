/-!
# Settings

The limits and the place of a symbol table. Settings are valid if both limits are positive.
-/

namespace SymbolTable

/-- The settings of a table. -/
structure Settings where
  /-- The directory of a store that outlives the process, if there is one. -/
  dataDir : Option String
  /-- How many parents a walk towards the global scope passes at most. -/
  maxDepth : Nat
  /-- How many characters a name may have. -/
  maxNameLength : Nat
  /-- How many handles the pool is made for. -/
  poolCapacity : Nat
  deriving DecidableEq, Repr

namespace Settings

/-- The settings of a table in memory. -/
def inMemory : Settings := ⟨none, 256, 2000, 1024⟩

/-- The settings of a table that is kept in a directory. -/
def persistent (dir : String) : Settings :=
  { inMemory with dataDir := some dir }

/-- Whether the rows are kept in a directory. -/
def isPersistent (s : Settings) : Bool :=
  s.dataDir.isSome

/-- Why settings are not valid. -/
inductive Flaw where
  | stated (message : String)
  | zeroDepth
  | zeroNameLength
  deriving DecidableEq, Repr

/-- The wording of a flaw. -/
def Flaw.message : Flaw → String
  | .stated message => message
  | .zeroDepth => "max_namespace_depth must be > 0"
  | .zeroNameLength => "max_name_length must be > 0"

/-- Why settings could not be had. -/
inductive Fault where
  /-- The file could not be read. -/
  | unreadable (path : String)
  /-- The text is no settings text. -/
  | malformed (detail : String)
  | invalid (flaw : Flaw)
  deriving DecidableEq, Repr

namespace Fault

/-- The wording of a fault. -/
def message : Fault → String
  | .unreadable path => "failed to read registry config: " ++ path
  | .malformed detail => "failed to parse registry config: " ++ detail
  | .invalid flaw => "invalid registry config: " ++ flaw.message

/-- The code of a class of faults. -/
def code : Fault → String
  | .unreadable _ => "symdb::config::read"
  | .malformed _ => "symdb::config::parse"
  | .invalid _ => "symdb::config::invalid"

/-- What to do about a fault. -/
def help : Fault → String
  | .unreadable _ => "Ensure the config file exists and is readable."
  | .malformed _ => "Check the TOML syntax and field names in the registry config."
  | .invalid flaw => flaw.message

end Fault

/-- Checks that both limits are positive. -/
def validate (s : Settings) : Except Fault Unit :=
  if s.maxDepth = 0 then .error (.invalid .zeroDepth)
  else if s.maxNameLength = 0 then .error (.invalid .zeroNameLength)
  else .ok ()

instance : Inhabited Settings := ⟨inMemory⟩

end Settings

end SymbolTable
