import SymbolTable.Address
import SymbolTable.Text.Escape

/-!
# Symbol names

A name that a user chooses is not empty, not too long, has no blank or control character, and does
not have the form of a name derived from an address: a reserved stem, an underscore and hexadecimal
digits. The last rule keeps chosen names apart from the names that unnamed symbols show.
-/

namespace SymbolTable

namespace Name

/-- The stems reserved for names derived from addresses. -/
def stems : List String :=
  ["LAB", "FUN", "SUB", "DAT", "EXT", "UNK", "OFF", "PTR"]

/-- What stands between the elements of a qualified name. -/
def separator : String := "::"

/-- The name derived from an address: a stem, an underscore and the padded offset. -/
def derived (stem : String) (a : Address) : String :=
  stem ++ "_" ++ a.hexOffset

/-- Whether a name has the form reserved for derived names. -/
def isDerivedForm (name : String) : Bool :=
  let stem := name.toList.takeWhile (· ≠ '_')
  match name.toList.dropWhile (· ≠ '_') with
  | [] => false
  | _ :: digits =>
    stems.contains (String.ofList stem) && !digits.isEmpty && digits.all Hex.isDigit

/-- Whether a name may not contain `c`. -/
def isForbidden (c : Char) : Bool :=
  Text.isBlank c || Text.isControl c

/-- Why a name cannot be chosen. -/
inductive Fault where
  | empty
  | tooLong (limit : Nat)
  | forbiddenCharacter (name : String) (c : Char)
  | derivedForm (name : String)
  deriving DecidableEq, Repr

/-- The wording of a fault. -/
def Fault.message : Fault → String
  | .empty => "symbol name may not be empty"
  | .tooLong limit => "symbol name exceeds " ++ toString limit ++ " characters"
  | .forbiddenCharacter name c =>
    "symbol name \"" ++ Text.escaped name ++ "\" contains invalid character " ++ Text.quotedChar c
  | .derivedForm name => "\"" ++ name ++ "\" is reserved for address-derived default names"

/-- Checks a chosen name of at most `limit` characters; the first rule it breaks is reported. -/
def check (name : String) (limit : Nat) : Except Fault Unit :=
  if name.toList.isEmpty then .error .empty
  else if limit < name.toList.length then .error (.tooLong limit)
  else
    match name.toList.find? isForbidden with
    | some c => .error (.forbiddenCharacter name c)
    | none => if isDerivedForm name then .error (.derivedForm name) else .ok ()

/-- The qualified name whose elements are `path`, outermost first. -/
def qualified (path : List String) : String :=
  separator.intercalate path

end Name

end SymbolTable
