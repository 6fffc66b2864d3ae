/-!
# Hexadecimal numerals

The lower-case digits of a natural number in base sixteen, least form (`digits`) and padded with
zeros to a width (`padded`). Reading a numeral back gives its number (`value_digits`), so a numeral
determines its number.
-/

namespace SymbolTable.Hex

/-- The digit of a number below sixteen. -/
def digit (n : Nat) : Char :=
  if n < 10 then Char.ofNat (48 + n) else Char.ofNat (87 + n)

/-- The shortest numeral of `n`; zero is the one digit `0`. -/
def digits (n : Nat) : List Char :=
  if n < 16 then [digit n] else digits (n / 16) ++ [digit (n % 16)]

/-- The numeral of `n`, with zeros put in front until it has `width` digits. -/
def padded (width n : Nat) : List Char :=
  List.leftpad width '0' (digits n)

/-- Whether `c` is a hexadecimal digit, in either case. -/
def isDigit (c : Char) : Bool :=
  ('0' ≤ c && c ≤ '9') || ('a' ≤ c && c ≤ 'f') || ('A' ≤ c && c ≤ 'F')

/-- The number a digit stands for; a character that is no digit counts as zero. -/
def digitValue (c : Char) : Nat :=
  if '0' ≤ c && c ≤ '9' then c.toNat - 48
  else if 'a' ≤ c && c ≤ 'f' then c.toNat - 87
  else if 'A' ≤ c && c ≤ 'F' then c.toNat - 55
  else 0

/-- The number a numeral stands for. -/
def value (cs : List Char) : Nat :=
  cs.foldl (fun n c => 16 * n + digitValue c) 0

/-- The digit of a value has this value. -/
theorem digitValue_digit {n : Nat} (h : n < 16) : digitValue (digit n) = n := by
  have : ∀ m : Fin 16, digitValue (digit m.val) = m.val := by decide
  exact this ⟨n, h⟩

/-- The digit of a value below sixteen is one of the digits. -/
theorem isDigit_digit {n : Nat} (h : n < 16) : isDigit (digit n) = true := by
  have : ∀ m : Fin 16, isDigit (digit m.val) = true := by decide
  exact this ⟨n, h⟩

/-- Every number has at least one digit, zero included. -/
theorem digits_ne_nil (n : Nat) : digits n ≠ [] := by
  unfold digits
  split <;> simp

/-- Every character of a numeral is a digit. The induction follows `digits`, which takes the last
digit off. -/
theorem isDigit_of_mem_digits {n : Nat} : ∀ {c : Char}, c ∈ digits n → isDigit c = true := by
  induction n using digits.induct with
  | case1 n h =>
    intro c hc
    rw [digits, if_pos h, List.mem_singleton] at hc
    exact hc ▸ isDigit_digit h
  | case2 n h ih =>
    intro c hc
    rw [digits, if_neg h, List.mem_append, List.mem_singleton] at hc
    rcases hc with hc | rfl
    · exact ih hc
    · exact isDigit_digit (Nat.mod_lt _ (by decide))

/-- A numeral reads back as its number. The induction follows `digits`, and what stands before the
last digit counts sixteen times. -/
theorem value_digits (n : Nat) : value (digits n) = n := by
  induction n using digits.induct with
  | case1 n h =>
    rw [digits, if_pos h]
    simp [value, digitValue_digit h]
  | case2 n h ih =>
    rw [digits, if_neg h, value, List.foldl_append]
    have hm : n % 16 < 16 := Nat.mod_lt _ (by decide)
    simp only [value] at ih
    simp only [List.foldl_cons, List.foldl_nil, ih, digitValue_digit hm]
    omega

end SymbolTable.Hex
