import SymbolTable.Row
import SymbolTable.Text.Utf8

/-!
# The byte layout of rows

A row is written field by field with no gap: integers in little-endian order at their full width, a
text as its byte length in eight bytes and its UTF-8 bytes, a parent as a four-byte variant number
followed by the id if there is one, and an optional text behind a byte that is one or zero. The
reader takes exactly what the writer produces and leaves the bytes behind it alone.
-/

namespace SymbolTable.Row.Layout

/-- Why bytes are no row. -/
inductive Fault where
  /-- The bytes end inside an integer. -/
  | cutShort
  /-- The bytes end inside a text. -/
  | textCutShort
  /-- An id is zero. -/
  | zeroId
  | unknownVariant (n : Nat)
  | unknownMark (n : Nat)
  | malformedText (cause : Utf8.Fault)
  deriving DecidableEq, Repr

/-- The wording of a fault. -/
def Fault.message : Fault → String
  | .cutShort => "io error: unexpected end of file"
  | .textCutShort => "io error: "
  | .zeroId => "invalid value: integer `0`, expected a nonzero u64"
  | .unknownVariant n =>
    "invalid value: integer `" ++ toString n ++ "`, expected variant index 0 <= i < 2"
  | .unknownMark n => "tag for enum is not valid, found " ++ toString n
  | .malformedText cause => "string is not valid utf8: " ++ cause.message

/-! ## Writing -/

/-- The `width` low bytes of `n`, lowest first. -/
def word : (width : Nat) → (n : Nat) → List UInt8
  | 0, _ => []
  | width + 1, n => UInt8.ofNat n :: word width (n / 256)

/-- A text: its length in bytes, then its bytes. -/
def text (s : String) : List UInt8 :=
  let bytes := Utf8.encode s.toList
  word 8 bytes.length ++ bytes

/-- Whether the length of a text has room in the eight bytes before it. -/
def textFits (s : String) : Bool :=
  (Utf8.encode s.toList).length < UInt64.size

/-- Whether all texts of a row fit. -/
def fits (r : Row) : Bool :=
  textFits r.name && r.data3.all textFits

/-- A parent: its variant number, then the id of a symbol. -/
def parent : Scope → List UInt8
  | .global => word 4 0
  | .of id => word 4 1 ++ word 8 id.val.toNat

/-- An optional text behind its mark. -/
def optionalText : Option String → List UInt8
  | none => [0]
  | some s => 1 :: text s

/-- The bytes of a row. -/
def encode (r : Row) : List UInt8 :=
  word 8 r.id.val.toNat ++ word 1 r.tag.toNat ++ word 2 r.address.space.id.toNat ++
    word 1 r.address.space.bits.toNat ++ word 8 r.address.offset.toNat ++ text r.name ++
    parent r.parent ++ word 1 r.flags.toNat ++ word 8 r.data1.toUInt64.toNat ++
    word 4 r.data2.toUInt32.toNat ++ optionalText r.data3

/-! ## Reading -/

/-- A reader takes bytes from the front of its input and leaves the rest. -/
abbrev Reader := StateT (List UInt8) (Except Fault)

/-- Reads an integer of `width` bytes. -/
def readWord : (width : Nat) → Reader Nat
  | 0 => pure 0
  | width + 1 => do
    match ← get with
    | [] => throw .cutShort
    | b :: rest =>
      set rest
      let high ← readWord width
      return b.toNat + 256 * high

/-- Reads `n` bytes of text. -/
def readBytes (n : Nat) : Reader (List UInt8) := do
  let bytes ← get
  if bytes.length < n then throw .textCutShort
  else
    set (bytes.drop n)
    return bytes.take n

/-- Reads a text. -/
def readText : Reader String := do
  let n ← readWord 8
  let bytes ← readBytes n
  match Utf8.decode bytes with
  | .ok cs => return String.ofList cs
  | .error cause => throw (.malformedText cause)

/-- Reads an id, which is never zero. -/
def readId : Reader SymbolId := do
  let n ← readWord 8
  match SymbolId.ofRaw? (UInt64.ofNat n) with
  | some id => return id
  | none => throw .zeroId

/-- Reads a parent. -/
def readParent : Reader Scope := do
  let n ← readWord 4
  if n = 0 then return .global
  else if n = 1 then
    let id ← readId
    return .of id
  else throw (.unknownVariant n)

/-- Reads an optional text. -/
def readOptionalText : Reader (Option String) := do
  let n ← readWord 1
  if n = 0 then return none
  else if n = 1 then
    let s ← readText
    return some s
  else throw (.unknownMark n)

/-- Reads a row. -/
def readRow : Reader Row := do
  let id ← readId
  let tag ← readWord 1
  let space ← readWord 2
  let bits ← readWord 1
  let offset ← readWord 8
  let name ← readText
  let parent ← readParent
  let flags ← readWord 1
  let data1 ← readWord 8
  let data2 ← readWord 4
  let data3 ← readOptionalText
  return {
    id := id
    tag := UInt8.ofNat tag
    address := ⟨⟨UInt16.ofNat space, UInt8.ofNat bits⟩, UInt64.ofNat offset⟩
    name := name
    parent := parent
    flags := UInt8.ofNat flags
    data1 := (UInt64.ofNat data1).toInt64
    data2 := (UInt32.ofNat data2).toInt32
    data3 := data3 }

/-- The row at the front of some bytes. -/
def decode (bytes : List UInt8) : Except Fault Row :=
  Prod.fst <$> readRow bytes

end SymbolTable.Row.Layout
