/-!
# UTF-8

The bytes of a text, and reading bytes back. The reader takes exactly the well-formed sequences: no
overlong form, no surrogate, nothing above the last code point. Its fault names the place: the
offset of the first byte of the character that could not be read, and how many bytes of it were good
enough to belong to one character.
-/

namespace SymbolTable.Utf8

/-- Why a byte sequence is no text. -/
inductive Fault where
  /-- The `length` bytes from `offset` on begin no character. -/
  | malformed (length offset : Nat)
  /-- The bytes end inside the character that starts at `offset`. -/
  | cutShort (offset : Nat)
  deriving DecidableEq, Repr

namespace Fault

/-- The wording of a fault. -/
def message : Fault → String
  | .malformed length offset =>
    "invalid utf-8 sequence of " ++ toString length ++ " bytes from index " ++ toString offset
  | .cutShort offset => "incomplete utf-8 byte sequence from index " ++ toString offset

end Fault

/-- The bytes of a text. -/
def encode (cs : List Char) : List UInt8 :=
  cs.flatMap String.utf8EncodeChar

/-- Whether `low ≤ b ≤ high`. -/
def within (low high b : UInt8) : Bool :=
  low ≤ b && b ≤ high

/-- Whether `b` may follow the first two bytes of a character. -/
def isTail (b : UInt8) : Bool :=
  within 0x80 0xbf b

/-- The least and the greatest byte that may follow the first byte of a character of three or four
bytes, which rules out overlong forms, surrogates and what lies above the last code point. -/
def secondRange (b : UInt8) : UInt8 × UInt8 :=
  if b = 0xe0 then (0xa0, 0xbf)
  else if b = 0xed then (0x80, 0x9f)
  else if b = 0xf0 then (0x90, 0xbf)
  else if b = 0xf4 then (0x80, 0x8f)
  else (0x80, 0xbf)

/-- The character of a first byte, whose share is `b` less `mark`, and its tail bytes. -/
def assemble (mark b : UInt8) (tails : List UInt8) : Char :=
  Char.ofNat (tails.foldl (fun n t => 64 * n + (t.toNat - 0x80)) (b.toNat - mark.toNat))

/-- Reads bytes whose first one stands at `offset`. -/
def decodeFrom (offset : Nat) : List UInt8 → Except Fault (List Char)
  | [] => .ok []
  | b :: r =>
    if b < 0x80 then (Char.ofNat b.toNat :: ·) <$> decodeFrom (offset + 1) r
    else if within 0xc2 0xdf b then
      match r with
      | [] => .error (.cutShort offset)
      | b₁ :: r₁ =>
        if isTail b₁ then (assemble 0xc0 b [b₁] :: ·) <$> decodeFrom (offset + 2) r₁
        else .error (.malformed 1 offset)
    else if within 0xe0 0xef b then
      match r with
      | [] => .error (.cutShort offset)
      | b₁ :: r₁ =>
        if !within (secondRange b).1 (secondRange b).2 b₁ then .error (.malformed 1 offset)
        else match r₁ with
          | [] => .error (.cutShort offset)
          | b₂ :: r₂ =>
            if isTail b₂ then (assemble 0xe0 b [b₁, b₂] :: ·) <$> decodeFrom (offset + 3) r₂
            else .error (.malformed 2 offset)
    else if within 0xf0 0xf4 b then
      match r with
      | [] => .error (.cutShort offset)
      | b₁ :: r₁ =>
        if !within (secondRange b).1 (secondRange b).2 b₁ then .error (.malformed 1 offset)
        else match r₁ with
          | [] => .error (.cutShort offset)
          | b₂ :: r₂ =>
            if !isTail b₂ then .error (.malformed 2 offset)
            else match r₂ with
              | [] => .error (.cutShort offset)
              | b₃ :: r₃ =>
                if isTail b₃ then (assemble 0xf0 b [b₁, b₂, b₃] :: ·) <$> decodeFrom (offset + 4) r₃
                else .error (.malformed 3 offset)
    else .error (.malformed 1 offset)

/-- Reads the bytes of a text. -/
def decode (bytes : List UInt8) : Except Fault (List Char) :=
  decodeFrom 0 bytes

end SymbolTable.Utf8
