import SymbolTable.Toml.Literal
import SymbolTable.Toml.Quoted

/-!
# TOML documents

`Toml.read?` reads a text as a table, and answers nothing if the text is no TOML. A document is a
sequence of lines: headers, which open a table, and keys with values, which belong to the table
opened last. Values nest less than `depthLimit` deep, and a dotted key has fewer parts than that.
-/

namespace SymbolTable.Toml

/-- How deep values may nest. -/
def depthLimit : Nat := 80

/-- Something that takes characters off the front of a text, if it can. -/
abbrev Reader :=
  StateT (List Char) Option

namespace Reader

/-- What is left to read. -/
def rest : Reader (List Char) :=
  get

/-- Takes one character off. -/
def char (c : Char) : Reader Unit := do
  match ← get with
  | d :: r => if c = d then set r else failure
  | [] => failure

/-- Takes the characters off that satisfy `p`, as many as there are. -/
def takeWhile (p : Char → Bool) : Reader (List Char) := do
  let cs ← get
  set (cs.dropWhile p)
  return cs.takeWhile p

/-- Takes the blanks of a line off. -/
def blanks : Reader Unit :=
  discard (takeWhile Quoted.isBlank)

/-- Takes a line end off. -/
def lineEnd : Reader Unit := do
  match Quoted.lineEnd? (← get) with
  | some r => set r
  | none => failure

/-- Takes a comment off. -/
def comment : Reader Unit := do
  char '#'
  discard (takeWhile Quoted.isPlain)

/-- Takes the rest of a line off, which may have a comment. -/
def lineRest : Reader Unit := do
  blanks
  if (← rest).head? = some '#' then comment
  if !(← rest).isEmpty then lineEnd

/-- Takes blanks, line ends and comments off. -/
def gap : (fuel : Nat) → Reader Unit
  | 0 => pure ()
  | fuel + 1 => do
    blanks
    match (← rest).head? with
    | some '#' => do
      comment
      lineEnd
      gap fuel
    | some '\n' | some '\r' => do
      lineEnd
      gap fuel
    | _ => pure ()

/-- Takes blanks, line ends and comments off. -/
def gaps : Reader Unit := do
  gap (← rest).length

/-! ## Keys -/

/-- Whether `c` may stand in a key without quotes. -/
def isBare (c : Char) : Bool :=
  c.isAlphanum || c = '_' || c = '-'

/-- Reads one part of a key. -/
def keyPart : Reader String := do
  match Quoted.readSingle (← get) with
  | some (cs, r) => do
    set r
    return String.ofList cs
  | none => do
    let cs ← takeWhile isBare
    if cs.isEmpty then failure else return String.ofList cs

/-- Reads the parts of a key. -/
def keyParts : (fuel : Nat) → Reader (List String)
  | 0 => failure
  | fuel + 1 => do
    blanks
    let part ← keyPart
    blanks
    if (← rest).head? = some '.' then do
      char '.'
      return part :: (← keyParts fuel)
    else return [part]

/-- Reads a key: the parts before the last one, and the last one. -/
def key : Reader (List String × String) := do
  let parts ← keyParts depthLimit
  match parts.getLast? with
  | some last => if parts.length < depthLimit then return (parts.dropLast, last) else failure
  | none => failure

/-! ## Values -/

/-- Whether `c` may stand in a literal. -/
def isLiteral (c : Char) : Bool :=
  c.isAlphanum || c = '_' || c = '-' || c = '+' || c = '.' || c = ':'

/-- Reads the characters of a literal; a date goes on after a blank if a digit follows. -/
def literalChars : Reader (List Char) := do
  let cs ← takeWhile isLiteral
  match ← rest with
  | ' ' :: c :: _ =>
    if isDate cs && isDecimal c then do
      char ' '
      return cs ++ ' ' :: (← takeWhile isLiteral)
    else return cs
  | _ => return cs

/-- Reads a literal. -/
def literal : Reader Node := do
  match ofLiteral? (← literalChars) with
  | some node => return node
  | none => failure

/-- Reads items with commas between them, and after the last one if need be, up to a bracket. -/
def items (item : Reader Node) : (fuel : Nat) → Reader (List Node)
  | 0 => failure
  | fuel + 1 => do
    gaps
    if (← rest).head? = some ']' then do
      char ']'
      return []
    else do
      let node ← item
      gaps
      if (← rest).head? = some ',' then do
        char ','
        return node :: (← items item fuel)
      else do
        char ']'
        return [node]

/-- Reads a key and its value. -/
def pair (item : Reader Node) : Reader (List String × String × Node) := do
  let (path, last) ← key
  char '='
  blanks
  let node ← item
  return (path, last, node)

/-- Reads keys and values with commas between them, up to a brace, into a table. -/
def pairs (item : Reader Node) : (fuel : Nat) → Entries → Reader Entries
  | 0, _ => failure
  | fuel + 1, es => do
    let (path, last, node) ← pair item
    blanks
    match es.assign path last node with
    | none => failure
    | some es =>
      if (← rest).head? = some ',' then do
        char ','
        pairs item fuel es
      else do
        char '\x7d'
        return es

/-- Reads a table between braces, after the opening one. -/
def inlineTable (item : Reader Node) : Reader Node := do
  blanks
  if (← rest).head? = some '\x7d' then do
    char '\x7d'
    return .table .inline []
  else
    return .table .inline (← pairs item (← rest).length [])

/-- Reads a text. -/
def quoted : Reader Node := do
  match Quoted.read (← get) with
  | some (cs, r) => do
    set r
    return .text (String.ofList cs)
  | none => failure

/-- Reads a value in which values nest at most `depth` deep. -/
def value : (depth : Nat) → Reader Node
  | 0 => do
    match (← rest).head? with
    | some '"' | some '\'' => quoted
    | _ => literal
  | depth + 1 => do
    match (← rest).head? with
    | some '"' | some '\'' => quoted
    | some '[' => do
      char '['
      return .array (← items (value depth) ((← rest).length + 1))
    | some '\x7b' => do
      char '\x7b'
      inlineTable (value depth)
    | _ => literal

/-! ## Lines -/

/-- A document as far as it has been read: its table, and the way to the table opened last. -/
structure Draft where
  entries : Entries
  current : List String

/-- Reads a header. -/
def header (d : Draft) : Reader Draft := do
  char '['
  let double := (← rest).head? = some '['
  if double then char '['
  let (path, last) ← key
  char ']'
  if double then char ']'
  lineRest
  let opened := if double then Entries.addTable last else Entries.openTable last
  match d.entries.within opened path with
  | some es => return ⟨es, path ++ [last]⟩
  | none => failure

/-- Reads a key and its value. -/
def setting (d : Draft) : Reader Draft := do
  let (path, last, node) ← pair (value (depthLimit - 1))
  lineRest
  match d.entries.within (·.assign path last node) d.current with
  | some es => return { d with entries := es }
  | none => failure

/-- Reads lines to the end. -/
def lines : (fuel : Nat) → Draft → Reader Draft
  | 0, d => return d
  | fuel + 1, d => do
    blanks
    match ← rest with
    | [] => return d
    | '#' :: _ | '\n' :: _ | '\r' :: _ => do
      lineRest
      lines fuel d
    | '[' :: _ => do lines fuel (← header d)
    | _ => do lines fuel (← setting d)

end Reader

/-- The characters without the mark that may stand before them. -/
def withoutMark : List Char → List Char
  | '\ufeff' :: r => r
  | cs => cs

/-- Reads a text as a table. -/
def read? (s : String) : Option Entries :=
  let cs := withoutMark s.toList
  ((Reader.lines (cs.length + 1) ⟨[], []⟩).run cs).map (·.1.entries)

end SymbolTable.Toml
