import SymbolTable.Toml.Node
import SymbolTable.Text.Hex

/-!
# TOML literals

Numbers, truth values, dates and times are literals without blanks, except that a blank may stand
between a date and a time. A literal is read as a whole: `ofLiteral?` says what it means, if
anything. Integers fit 64 bits with sign, and a float that would round to positive infinity is none.
-/

namespace SymbolTable.Toml

/-- Whether `c` is a decimal digit. -/
def isDecimal (c : Char) : Bool :=
  '0' ≤ c && c ≤ '9'

/-- Whether `c` is an octal digit. -/
def isOctal (c : Char) : Bool :=
  '0' ≤ c && c ≤ '7'

/-- Whether `c` is a binary digit. -/
def isBinary (c : Char) : Bool :=
  c = '0' || c = '1'

/-- The digits of a numeral without the underscores, each of which has to stand between two
digits. -/
def numeral? (isDigit : Char → Bool) : List Char → Option (List Char)
  | [] => none
  | [c] => if isDigit c then some [c] else none
  | c :: '_' :: r => if isDigit c then (c :: ·) <$> numeral? isDigit r else none
  | c :: r => if isDigit c then (c :: ·) <$> numeral? isDigit r else none

/-- The number of a numeral in a base up to sixteen. -/
def number (base : Nat) (digits : List Char) : Nat :=
  digits.foldl (fun n c => base * n + Hex.digitValue c) 0

/-- A decimal numeral, of which nothing but zero starts with a zero. -/
def wholeNumeral? (cs : List Char) : Option (List Char) :=
  (numeral? isDecimal cs).filter fun digits => digits = ['0'] || digits.head? ≠ some '0'

/-- Splits a sign off; the answer says whether it is a minus. -/
def splitSign : List Char → Bool × List Char
  | '-' :: r => (true, r)
  | '+' :: r => (false, r)
  | r => (false, r)

/-- The integer of a literal. -/
def integer? : List Char → Option Int
  | '0' :: 'x' :: r => Int.ofNat <$> number 16 <$> numeral? Hex.isDigit r
  | '0' :: 'o' :: r => Int.ofNat <$> number 8 <$> numeral? isOctal r
  | '0' :: 'b' :: r => Int.ofNat <$> number 2 <$> numeral? isBinary r
  | cs =>
    let (negative, digits) := splitSign cs
    (fun n : Nat => if negative then -(n : Int) else n) <$> number 10 <$> wholeNumeral? digits

/-- Whether an integer fits 64 bits with sign. -/
def fits (n : Int) : Bool :=
  -0x8000000000000000 ≤ n && n < 0x8000000000000000

/-- Whether `digits` times ten to the power of `exponent` rounds to a finite float. What has less
than three hundred places before the point does, and what has more than 310 does not, unless it is
zero. -/
def isFinite (digits : List Char) (exponent : Int) : Bool :=
  let digits := digits.dropWhile (· = '0')
  let places := exponent + digits.length
  let limit := Nat.pow 2 1024 - Nat.pow 2 970
  if digits.isEmpty || places < 300 then true
  else if 310 < places then false
  else if 0 ≤ exponent then number 10 digits * Nat.pow 10 exponent.toNat < limit
  else number 10 digits < limit * Nat.pow 10 (-exponent).toNat

/-- The parts of a float after its sign: the digits before the point, those after it if there is
one, and the exponent if there is one. -/
def floatParts? (cs : List Char) : Option (List Char × List Char × Int) := do
  let whole ← wholeNumeral? (cs.takeWhile fun c => c ≠ '.' && c ≠ 'e' && c ≠ 'E')
  let rest := cs.dropWhile fun c => c ≠ '.' && c ≠ 'e' && c ≠ 'E'
  let (fraction, rest) ← match rest with
    | '.' :: r => do
      let fraction ← numeral? isDecimal (r.takeWhile fun c => c ≠ 'e' && c ≠ 'E')
      pure (fraction, r.dropWhile fun c => c ≠ 'e' && c ≠ 'E')
    | r => pure ([], r)
  match rest with
  | [] => if fraction.isEmpty then none else return (whole, fraction, 0)
  | _ :: r => do
    let (negative, digits) := splitSign r
    let n := number 10 (← numeral? isDecimal digits)
    return (whole, fraction, if negative then -(n : Int) else n)

/-- Whether a literal is a float. -/
def isFloat (cs : List Char) : Bool :=
  let (negative, body) := splitSign cs
  body = "inf".toList || body = "nan".toList ||
    match floatParts? body with
    | none => false
    | some (whole, fraction, exponent) =>
      negative || isFinite (whole ++ fraction) (exponent - fraction.length)

/-- The number of a numeral with exactly `width` digits. -/
def fixed? (width : Nat) (cs : List Char) : Option Nat :=
  if cs.length = width && cs.all isDecimal then some (number 10 cs) else none

/-- How many days a month has. -/
def daysIn (year month : Nat) : Nat :=
  if month = 2 then
    if year % 4 = 0 && (year % 100 ≠ 0 || year % 400 = 0) then 29 else 28
  else if month = 4 || month = 6 || month = 9 || month = 11 then 30
  else 31

/-- Whether the characters are a date. -/
def isDate (cs : List Char) : Bool :=
  match fixed? 4 (cs.take 4), cs.drop 4 with
  | some year, '-' :: r =>
    match fixed? 2 (r.take 2), r.drop 2 with
    | some month, '-' :: r =>
      match fixed? 2 r with
      | some day =>
        1 ≤ month && month ≤ 12 && 1 ≤ day && day ≤ daysIn year month
      | none => false
    | _, _ => false
  | _, _ => false

/-- Whether the characters are hours and minutes. -/
def isHourMinute (cs : List Char) : Bool :=
  match fixed? 2 (cs.take 2), cs.drop 2 with
  | some hour, ':' :: r => hour ≤ 23 && (fixed? 2 r).any (· ≤ 59)
  | _, _ => false

/-- Whether the characters are a time; a second may be a leap second. -/
def isTime (cs : List Char) : Bool :=
  isHourMinute (cs.take 5) &&
    match cs.drop 5 with
    | ':' :: r =>
      (fixed? 2 (r.take 2)).any (· ≤ 60) &&
        match r.drop 2 with
        | [] => true
        | '.' :: fraction => !fraction.isEmpty && fraction.all isDecimal
        | _ => false
    | _ => false

/-- Whether the characters are a time, with or without an offset from universal time. -/
def isOffsetTime (cs : List Char) : Bool :=
  let time := cs.takeWhile fun c => isDecimal c || c = ':' || c = '.'
  isTime time &&
    match cs.dropWhile fun c => isDecimal c || c = ':' || c = '.' with
    | [] => true
    | ['Z'] | ['z'] => true
    | '+' :: r | '-' :: r => isHourMinute r
    | _ => false

/-- Whether the characters are a date, a time, or both. -/
def isMoment (cs : List Char) : Bool :=
  isTime cs || isDate cs ||
    isDate (cs.take 10) &&
      match cs.drop 10 with
      | 'T' :: r | 't' :: r | ' ' :: r => isOffsetTime r
      | _ => false

/-- What a literal means. -/
def ofLiteral? (cs : List Char) : Option Node :=
  if cs = "true".toList then some (.flag true)
  else if cs = "false".toList then some (.flag false)
  else if isMoment cs then some (.moment (String.ofList cs))
  else if isFloat cs then some (.float (String.ofList cs))
  else (integer? cs).filter fits |>.map .integer

end SymbolTable.Toml
