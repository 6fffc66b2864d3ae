import SymbolTable.Text.Hex

/-!
# Quoted text in TOML

There are four ways to quote a text: between quotes, where a backslash starts an escape, or between
apostrophes, where nothing does; and each with its mark once, on one line, or three times, over
several lines. `Quoted.read` reads any of them, and `Quoted.write` picks the plainest one that holds
a text.
-/

namespace SymbolTable.Toml.Quoted

/-- Whether `c` may stand in a line: a tab may, and no other control character. -/
def isPlain (c : Char) : Bool :=
  c = '\t' || (' ' ≤ c && c ≠ '\x7f')

/-- Whether `c` is a blank within a line. -/
def isBlank (c : Char) : Bool :=
  c = ' ' || c = '\t'

/-! ## Reading -/

/-- Takes a line end off. -/
def lineEnd? : List Char → Option (List Char)
  | '\n' :: r => some r
  | '\r' :: '\n' :: r => some r
  | _ => none

/-- The character with the code point that `width` digits give, and what follows them. -/
def codePoint? (width : Nat) (cs : List Char) : Option (Char × List Char) :=
  let digits := cs.take width
  let n := Hex.value digits
  if digits.length = width && digits.all Hex.isDigit && n.isValidChar then
    some (Char.ofNat n, cs.drop width)
  else none

/-- The character of an escape, after its backslash, and what follows it. -/
def escape? : List Char → Option (Char × List Char)
  | 'b' :: r => some ('\x08', r)
  | 't' :: r => some ('\t', r)
  | 'n' :: r => some ('\n', r)
  | 'f' :: r => some ('\x0c', r)
  | 'r' :: r => some ('\r', r)
  | '"' :: r => some ('"', r)
  | '\\' :: r => some ('\\', r)
  | 'u' :: r => codePoint? 4 r
  | 'U' :: r => codePoint? 8 r
  | _ => none

/-- What follows the blanks and line ends at the start. -/
def skipLines : List Char → List Char
  | '\n' :: r => skipLines r
  | '\r' :: '\n' :: r => skipLines r
  | ' ' :: r => skipLines r
  | '\t' :: r => skipLines r
  | cs => cs

/-- What follows a line end that a backslash hides, and the blanks and line ends after it. -/
def hiddenLineEnd? (cs : List Char) : Option (List Char) :=
  (lineEnd? (cs.dropWhile isBlank)).map skipLines

/-- Reads a text on one line, up to the mark. -/
def readLine (mark : Char) (escapes : Bool) : (fuel : Nat) → List Char → Option (List Char × List Char)
  | 0, _ => none
  | _, [] => none
  | fuel + 1, c :: r =>
    if c = mark then some ([], r)
    else if escapes && c = '\\' then do
      let (c, r) ← escape? r
      let (cs, r) ← readLine mark escapes fuel r
      return (c :: cs, r)
    else if isPlain c then do
      let (cs, r) ← readLine mark escapes fuel r
      return (c :: cs, r)
    else none

/-- Reads a text over several lines, up to three marks. Up to two further marks before them belong
to the text, and a line end is read as a newline. -/
def readLines (mark : Char) (escapes : Bool) :
    (fuel : Nat) → List Char → Option (List Char × List Char)
  | 0, _ => none
  | _, [] => none
  | fuel + 1, c :: r =>
    if c = mark then
      let run := ((c :: r).takeWhile (· = mark)).length
      if run < 3 then do
        let (cs, r) ← readLines mark escapes fuel r
        return (c :: cs, r)
      else if run ≤ 5 then some (List.replicate (run - 3) mark, (c :: r).drop run)
      else none
    else if escapes && c = '\\' then
      match hiddenLineEnd? r with
      | some r => readLines mark escapes fuel r
      | none => do
        let (c, r) ← escape? r
        let (cs, r) ← readLines mark escapes fuel r
        return (c :: cs, r)
    else
      match lineEnd? (c :: r) with
      | some r => do
        let (cs, r) ← readLines mark escapes fuel r
        return ('\n' :: cs, r)
      | none =>
        if isPlain c then do
          let (cs, r) ← readLines mark escapes fuel r
          return (c :: cs, r)
        else none

/-- The text after an opening mark, and what follows the closing one. -/
def readAfter (mark : Char) (cs : List Char) : Option (List Char × List Char) :=
  readLine mark (mark = '"') (cs.length + 1) cs

/-- The text after three opening marks, the first line end left out, and what follows the closing
ones. -/
def readLinesAfter (mark : Char) (cs : List Char) : Option (List Char × List Char) :=
  readLines mark (mark = '"') (cs.length + 1) ((lineEnd? cs).getD cs)

/-- Reads a text on one line. -/
def readSingle : List Char → Option (List Char × List Char)
  | '"' :: r => readAfter '"' r
  | '\'' :: r => readAfter '\'' r
  | _ => none

/-- Reads a text. -/
def read : List Char → Option (List Char × List Char)
  | '"' :: '"' :: '"' :: r => readLinesAfter '"' r
  | '\'' :: '\'' :: '\'' :: r => readLinesAfter '\'' r
  | cs => readSingle cs

/-! ## Writing -/

/-- Whether `c` can only be written as an escape. A newline can be written as it is, over several
lines, and a tab between apostrophes. -/
def needsEscape (c : Char) : Bool :=
  !isPlain c && c ≠ '\n'

/-- The greatest number of marks that follow one another. -/
def longestRun (mark : Char) : (run : Nat) → List Char → Nat
  | run, [] => run
  | run, c :: cs => if c = mark then longestRun mark (run + 1) cs else max run (longestRun mark 0 cs)

/-- The ways to quote a text. -/
inductive Style where
  | basic
  | literal
  | basicLines
  | literalLines
  deriving DecidableEq, Repr

/-- The plainest way to quote a text: without escapes if it can be had, on one line if it can be
had, and between quotes rather than apostrophes. A tab, though written as an escape between quotes,
does not count as one. -/
def style (cs : List Char) : Style :=
  let escapes := cs.any needsEscape
  let lines := cs.contains '\n'
  if !escapes && !cs.contains '\\' && !cs.contains '"' && !lines then .basic
  else if !escapes && !cs.contains '\'' && !lines then .literal
  else if !escapes && !cs.contains '\\' && longestRun '"' 0 cs ≤ 2 then .basicLines
  else if !escapes && longestRun '\'' 0 cs ≤ 2 then .literalLines
  else if lines then .basicLines
  else .basic

/-- An upper-case hexadecimal numeral of four digits. -/
def codeDigits (n : Nat) : List Char :=
  (Hex.padded 4 n).map Char.toUpper

/-- A character between quotes. -/
def written (c : Char) : List Char :=
  if c = '\x08' then ['\\', 'b']
  else if c = '\t' then ['\\', 't']
  else if c = '\n' then ['\\', 'n']
  else if c = '\x0c' then ['\\', 'f']
  else if c = '\r' then ['\\', 'r']
  else if c = '"' then ['\\', '"']
  else if c = '\\' then ['\\', '\\']
  else if needsEscape c then '\\' :: 'u' :: codeDigits c.toNat
  else [c]

/-- The characters of a text over several lines between quotes. A newline stands for itself, and so
does a quote, unless it is the third one in a row. -/
def writtenLines : (run : Nat) → List Char → List Char
  | _, [] => []
  | run, c :: cs =>
    if c = '\n' then '\n' :: writtenLines 0 cs
    else if c = '"' then
      if run = 2 then written c ++ writtenLines 0 cs else '"' :: writtenLines (run + 1) cs
    else written c ++ writtenLines 0 cs

/-- A text over several lines, which starts on a line of its own if it has more than one. -/
def betweenLines (mark : String) (text body : List Char) : String :=
  mark ++ (if text.contains '\n' then "\n" else "") ++ String.ofList body ++ mark

/-- A text, quoted. -/
def write (s : String) : String :=
  let cs := s.toList
  match style cs with
  | .basic => "\"" ++ String.ofList (cs.flatMap written) ++ "\""
  | .literal => "'" ++ s ++ "'"
  | .basicLines => betweenLines "\"\"\"" cs (writtenLines 0 cs)
  | .literalLines => betweenLines "'''" cs cs

end SymbolTable.Toml.Quoted
