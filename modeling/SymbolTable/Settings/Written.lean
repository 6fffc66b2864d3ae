import SymbolTable.Settings
import SymbolTable.Text.Utf8
import SymbolTable.Toml.Document

/-!
# Settings as text

Settings are written as TOML: one key for each, in a fixed order, and none for a directory that is
not given. Reading takes the usual setting for a key that is missing, and passes over keys that are
no settings. Integers in TOML have 64 bits with sign, so greater limits cannot be written.
-/

namespace SymbolTable.Settings

/-- The directory that a table gives. -/
def readDirectory (es : Toml.Entries) : Except Fault (Option String) :=
  match es.get? "data_dir" with
  | none => .ok none
  | some (.text s) => .ok (some s)
  | some _ => .error (.malformed "data_dir is no text")

/-- The number that a table gives, or the usual one. -/
def readNumber (es : Toml.Entries) (key : String) (usual : Nat) : Except Fault Nat :=
  match es.get? key with
  | none => .ok usual
  | some (.integer n) =>
    if 0 ≤ n then .ok n.toNat else .error (.malformed (key ++ " is negative"))
  | some _ => .error (.malformed (key ++ " is no integer"))

/-- The settings that a table gives. -/
def ofEntries (es : Toml.Entries) : Except Fault Settings := do
  let dataDir ← readDirectory es
  let maxDepth ← readNumber es "max_namespace_depth" inMemory.maxDepth
  let maxNameLength ← readNumber es "max_name_length" inMemory.maxNameLength
  let poolCapacity ← readNumber es "cache_capacity" inMemory.poolCapacity
  return ⟨dataDir, maxDepth, maxNameLength, poolCapacity⟩

/-- Reads valid settings. -/
def ofText (s : String) : Except Fault Settings := do
  match Toml.read? s with
  | none => .error (.malformed "not TOML")
  | some es => do
    let settings ← ofEntries es
    settings.validate
    return settings

/-- Reads the settings in a file, whose bytes are given if it could be opened. -/
def load (path : String) (bytes? : Option (List UInt8)) : Except Fault Settings :=
  match bytes?.map (Utf8.decode ·) with
  | some (.ok cs) => ofText (String.ofList cs)
  | some (.error _) | none => .error (.unreadable path)

/-- The line of a number. -/
def numberLine (key : String) (n : Nat) : Except Fault String :=
  if Toml.fits n then .ok (key ++ " = " ++ toString n ++ "\n")
  else .error (.malformed (key ++ " is out of range"))

/-- Writes settings. -/
def toText (s : Settings) : Except Fault String := do
  let directory := s.dataDir.elim "" fun dir => "data_dir = " ++ Toml.Quoted.write dir ++ "\n"
  let depth ← numberLine "max_namespace_depth" s.maxDepth
  let length ← numberLine "max_name_length" s.maxNameLength
  let capacity ← numberLine "cache_capacity" s.poolCapacity
  return directory ++ depth ++ length ++ capacity

end SymbolTable.Settings
