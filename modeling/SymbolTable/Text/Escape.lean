import SymbolTable.Text.Extending
import SymbolTable.Text.Hex
import SymbolTable.Text.Ignorable
import SymbolTable.Text.Unprintable

/-!
# Escaped text

How messages and debugging output write characters that would not show. `escaped` is plain for
printable ASCII and spells everything else out; `quotedChar` writes one character between single
quotes; `quoted` writes a text between double quotes and keeps the printable characters of all
scripts.
-/

namespace SymbolTable.Text

/-- The code point of `c` in braces, as in `\u{1f}`. -/
def codePoint (c : Char) : List Char :=
  ['\\', 'u', '\x7b'] ++ Hex.digits c.toNat ++ ['\x7d']

/-- The two-character escape of a character that has one in every kind of quoted text. -/
def shortEscape? : Char → Option (List Char)
  | '\t' => some ['\\', 't']
  | '\r' => some ['\\', 'r']
  | '\n' => some ['\\', 'n']
  | '\\' => some ['\\', '\\']
  | _ => none

/-- Escapes a character: quotes, the backslash, tab and line ends get a backslash, other printable
ASCII stays, and the rest is given by its code point. -/
def escapedChar (c : Char) : List Char :=
  match shortEscape? c with
  | some cs => cs
  | none =>
    if c = '\'' || c = '"' then ['\\', c]
    else if 0x20 ≤ c.toNat && c.toNat ≤ 0x7e then [c]
    else codePoint c

/-- Escapes every character of a text. -/
def escaped (s : String) : String :=
  String.ofList (s.toList.flatMap escapedChar)

/-- Whether `c` can be read where it stands: it prints, does not change what stands before it, and
is not left out. -/
def isVisible (c : Char) : Bool :=
  !isUnprintable c && !isExtending c && !isIgnorable c

/-- A character of debugging output, where `quote` is the quotation mark around the text. -/
def debugChar (quote c : Char) : List Char :=
  match shortEscape? c with
  | some cs => cs
  | none =>
    if c = '\x00' then ['\\', '0']
    else if c = quote then ['\\', c]
    else if isVisible c then [c]
    else codePoint c

/-- One character between single quotes. -/
def quotedChar (c : Char) : String :=
  String.ofList (['\''] ++ debugChar '\'' c ++ ['\''])

/-- A text between double quotes. -/
def quoted (s : String) : String :=
  String.ofList (['"'] ++ s.toList.flatMap (debugChar '"') ++ ['"'])

end SymbolTable.Text
