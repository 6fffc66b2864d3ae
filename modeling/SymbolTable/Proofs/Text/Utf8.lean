import SymbolTable.Text.Utf8

/-!
# Reading UTF-8 back

The reader takes the bytes of a text for that text (`decode_encode`), whatever their number. There
is one case for each number of bytes that a character can have. The byte bounds that rule out
overlong forms and surrogates never turn away the bytes of a character, since no character is a
surrogate.
-/

namespace SymbolTable.Utf8

/-! ## Bytes given by numbers -/

/-- A number below 256 is the number of its byte. -/
theorem toNat_ofNat_byte {n : Nat} (h : n < 256) : (UInt8.ofNat n).toNat = n := by
  rw [UInt8.toNat_ofNat']
  exact Nat.mod_eq_of_lt h

/-- Bytes are compared as the numbers are, so the bounds of the reader are settled by arithmetic. -/
theorem ofNat_lt_iff {m : UInt8} {n : Nat} (h : n < 256) : UInt8.ofNat n < m ↔ n < m.toNat := by
  rw [UInt8.lt_iff_toNat_lt, toNat_ofNat_byte h]

/-- The byte of a number is the byte whose number this is. -/
theorem ofNat_eq_iff {m : UInt8} {n : Nat} (h : n < 256) : UInt8.ofNat n = m ↔ n = m.toNat := by
  rw [← UInt8.toNat_inj, toNat_ofNat_byte h]

/-- Whether a byte lies within bounds is settled by arithmetic on its number. -/
theorem within_ofNat_iff {low high : UInt8} {n : Nat} (h : n < 256) :
    within low high (UInt8.ofNat n) = true ↔ low.toNat ≤ n ∧ n ≤ high.toNat := by
  simp only [within, UInt8.le_iff_toNat_le, toNat_ofNat_byte h, Bool.and_eq_true,
    decide_eq_true_iff]

/-- The low six bits of a number, marked, are a tail byte. Six bits make less than 64, so the sum is
not greater than the last tail byte. -/
theorem isTail_ofNat (n : Nat) : isTail (UInt8.ofNat (n % 64 + 0x80)) = true := by
  have h80 : (0x80 : UInt8).toNat = 128 := rfl
  have hbf : (0xbf : UInt8).toNat = 191 := rfl
  rw [isTail, within_ofNat_iff (by omega), h80, hbf]
  omega

/-! ## One step of the reader for each number of bytes -/

section
variable (offset : Nat) {b b₁ b₂ b₃ : UInt8} (r : List UInt8)

/-- A byte below 80 stands for its own character. -/
theorem decodeFrom_one (h : b < 0x80) :
    decodeFrom offset (b :: r) = (Char.ofNat b.toNat :: ·) <$> decodeFrom (offset + 1) r := by
  conv => lhs; unfold decodeFrom
  rw [if_pos h]

/-- Two bytes that fit together are read as one character. This and the next two lemmas take the
place of the definition of the reader from here on. -/
theorem decodeFrom_two (h0 : ¬ b < 0x80) (h : within 0xc2 0xdf b = true) (h1 : isTail b₁ = true) :
    decodeFrom offset (b :: b₁ :: r) =
      (assemble 0xc0 b [b₁] :: ·) <$> decodeFrom (offset + 2) r := by
  conv => lhs; unfold decodeFrom
  simp only [if_neg h0, h, h1, if_true]

/-- Three bytes that fit together are read as one character, the second within the bounds that the
first one sets. The premises are the tests of the decoder in the order in which it makes them. -/
theorem decodeFrom_three (h0 : ¬ b < 0x80) (h0' : ¬ within 0xc2 0xdf b = true)
    (h : within 0xe0 0xef b = true)
    (h1 : within (secondRange b).1 (secondRange b).2 b₁ = true) (h2 : isTail b₂ = true) :
    decodeFrom offset (b :: b₁ :: b₂ :: r) =
      (assemble 0xe0 b [b₁, b₂] :: ·) <$> decodeFrom (offset + 3) r := by
  conv => lhs; unfold decodeFrom
  simp only [if_neg h0, h0', h, h1, h2, if_true, Bool.not_true, Bool.false_eq_true, if_false]

/-- Four bytes that fit together are read as one character, the second within the bounds that the
first one sets. The bounds on the second byte keep the number of the character below the last
one. -/
theorem decodeFrom_four (h0 : ¬ b < 0x80) (h0' : ¬ within 0xc2 0xdf b = true)
    (h0'' : ¬ within 0xe0 0xef b = true) (h : within 0xf0 0xf4 b = true)
    (h1 : within (secondRange b).1 (secondRange b).2 b₁ = true) (h2 : isTail b₂ = true)
    (h3 : isTail b₃ = true) :
    decodeFrom offset (b :: b₁ :: b₂ :: b₃ :: r) =
      (assemble 0xf0 b [b₁, b₂, b₃] :: ·) <$> decodeFrom (offset + 4) r := by
  conv => lhs; unfold decodeFrom
  simp only [if_neg h0, h0', h0'', h, h1, h2, h3, if_true, Bool.not_true, Bool.false_eq_true,
    if_false]

end

/-! ## The bytes of a character -/

/-- The bounds on the second byte, by the number of the first. They exclude overlong forms, the
surrogates and what lies above the last character. -/
theorem secondRange_ofNat {n : Nat} (h : n < 256) :
    secondRange (UInt8.ofNat n) =
      if n = 0xe0 then (0xa0, 0xbf) else if n = 0xed then (0x80, 0x9f)
      else if n = 0xf0 then (0x90, 0xbf) else if n = 0xf4 then (0x80, 0x8f)
      else (0x80, 0xbf) := by
  simp only [secondRange, ofNat_eq_iff h]
  rfl

/-- The second byte of a character of three bytes lies within its bounds. It depends on the first
byte: after E0 it has to be high enough for three bytes to be needed, and after ED too low for a
surrogate. -/
theorem within_secondRange_three {v : Nat} (h1 : 0x7ff < v) (h2 : v ≤ 0xffff)
    (hs : v < 0xd800 ∨ 0xdfff < v) :
    within (secondRange (UInt8.ofNat (v / 4096 % 16 + 0xe0))).1
      (secondRange (UInt8.ofNat (v / 4096 % 16 + 0xe0))).2
      (UInt8.ofNat (v / 64 % 64 + 0x80)) = true := by
  have ha0 : (0xa0 : UInt8).toNat = 160 := rfl
  have h9f : (0x9f : UInt8).toNat = 159 := rfl
  have h80 : (0x80 : UInt8).toNat = 128 := rfl
  have hbf : (0xbf : UInt8).toNat = 191 := rfl
  rw [secondRange_ofNat (by omega)]
  by_cases he0 : v / 4096 % 16 + 0xe0 = 0xe0
  · rw [if_pos he0, within_ofNat_iff (by omega), ha0, hbf]
    omega
  · by_cases hed : v / 4096 % 16 + 0xe0 = 0xed
    · rw [if_neg he0, if_pos hed, within_ofNat_iff (by omega), h80, h9f]
      omega
    · rw [if_neg he0, if_neg hed, if_neg (by omega), if_neg (by omega),
        within_ofNat_iff (by omega), h80, hbf]
      omega

/-- The second byte of a character of four bytes lies within its bounds. After F0 it has to be high
enough for four bytes to be needed, and after F4 low enough not to pass the last character. -/
theorem within_secondRange_four {v : Nat} (h1 : 0xffff < v) (h2 : v < 0x110000) :
    within (secondRange (UInt8.ofNat (v / 262144 % 8 + 0xf0))).1
      (secondRange (UInt8.ofNat (v / 262144 % 8 + 0xf0))).2
      (UInt8.ofNat (v / 4096 % 64 + 0x80)) = true := by
  have h90 : (0x90 : UInt8).toNat = 144 := rfl
  have h8f : (0x8f : UInt8).toNat = 143 := rfl
  have h80 : (0x80 : UInt8).toNat = 128 := rfl
  have hbf : (0xbf : UInt8).toNat = 191 := rfl
  rw [secondRange_ofNat (by omega), if_neg (by omega), if_neg (by omega)]
  by_cases hf0 : v / 262144 % 8 + 0xf0 = 0xf0
  · rw [if_pos hf0, within_ofNat_iff (by omega), h90, hbf]
    omega
  · by_cases hf4 : v / 262144 % 8 + 0xf0 = 0xf4
    · rw [if_neg hf0, if_pos hf4, within_ofNat_iff (by omega), h80, h8f]
      omega
    · rw [if_neg hf0, if_neg hf4, within_ofNat_iff (by omega), h80, hbf]
      omega

section
variable {v : Nat} {c : Char} (hc : Char.ofNat v = c) (offset : Nat) (r : List UInt8)

include hc

/-- The byte of a character of seven bits is read as this character. It takes one byte, so the next
one is read one further on. -/
theorem decodeFrom_encoded_one (h : v ≤ 0x7f) :
    decodeFrom offset (UInt8.ofNat v :: r) = (c :: ·) <$> decodeFrom (offset + 1) r := by
  have h80 : (0x80 : UInt8).toNat = 128 := rfl
  rw [decodeFrom_one offset r, toNat_ofNat_byte (by omega), hc]
  rw [ofNat_lt_iff (by omega)]
  omega

/-- The bytes of a character of eleven bits are read as this character. The first byte is in its
range, as the number needs two bytes, so the reader comes to this case. -/
theorem decodeFrom_encoded_two (h1 : 0x7f < v) (h2 : v ≤ 0x7ff) :
    decodeFrom offset (UInt8.ofNat (v / 64 % 32 + 0xc0) :: UInt8.ofNat (v % 64 + 0x80) :: r) =
      (c :: ·) <$> decodeFrom (offset + 2) r := by
  have h80 : (0x80 : UInt8).toNat = 128 := rfl
  have hc0 : (0xc0 : UInt8).toNat = 192 := rfl
  have hc2 : (0xc2 : UInt8).toNat = 194 := rfl
  have hdf : (0xdf : UInt8).toNat = 223 := rfl
  have hchar : assemble 0xc0 (UInt8.ofNat (v / 64 % 32 + 0xc0)) [UInt8.ofNat (v % 64 + 0x80)]
      = c := by
    rw [← hc]
    refine congrArg Char.ofNat ?_
    simp only [List.foldl_cons, List.foldl_nil]
    rw [toNat_ofNat_byte (by omega), toNat_ofNat_byte (by omega)]
    omega
  rw [decodeFrom_two offset r _ _ (isTail_ofNat v), hchar]
  · rw [ofNat_lt_iff (by omega)]
    omega
  · rw [within_ofNat_iff (by omega)]
    omega

/-- The bytes of a character of sixteen bits are read as this character. It is no surrogate, so the
bound on the second byte lets it through. -/
theorem decodeFrom_encoded_three (h1 : 0x7ff < v) (h2 : v ≤ 0xffff)
    (hv : v < 0xd800 ∨ 0xdfff < v) :
    decodeFrom offset (UInt8.ofNat (v / 4096 % 16 + 0xe0) :: UInt8.ofNat (v / 64 % 64 + 0x80) ::
      UInt8.ofNat (v % 64 + 0x80) :: r) = (c :: ·) <$> decodeFrom (offset + 3) r := by
  have h80 : (0x80 : UInt8).toNat = 128 := rfl
  have hdf : (0xdf : UInt8).toNat = 223 := rfl
  have he0 : (0xe0 : UInt8).toNat = 224 := rfl
  have hef : (0xef : UInt8).toNat = 239 := rfl
  have hc2 : (0xc2 : UInt8).toNat = 194 := rfl
  have hchar : assemble 0xe0 (UInt8.ofNat (v / 4096 % 16 + 0xe0))
      [UInt8.ofNat (v / 64 % 64 + 0x80), UInt8.ofNat (v % 64 + 0x80)] = c := by
    rw [← hc]
    refine congrArg Char.ofNat ?_
    simp only [List.foldl_cons, List.foldl_nil]
    rw [toNat_ofNat_byte (by omega), toNat_ofNat_byte (by omega), toNat_ofNat_byte (by omega)]
    omega
  rw [decodeFrom_three offset r _ _ _ (within_secondRange_three h1 h2 hv) (isTail_ofNat v), hchar]
  · rw [ofNat_lt_iff (by omega)]
    omega
  · rw [within_ofNat_iff (by omega)]
    omega
  · rw [within_ofNat_iff (by omega)]
    omega

/-- The bytes of a character beyond sixteen bits are read as this character. Once the three bytes
behind the first have passed their bounds, the number is put together again from its digits to the
base 64. -/
theorem decodeFrom_encoded_four (h1 : 0xffff < v) (h2 : v < 0x110000) :
    decodeFrom offset (UInt8.ofNat (v / 262144 % 8 + 0xf0) :: UInt8.ofNat (v / 4096 % 64 + 0x80) ::
      UInt8.ofNat (v / 64 % 64 + 0x80) :: UInt8.ofNat (v % 64 + 0x80) :: r) =
      (c :: ·) <$> decodeFrom (offset + 4) r := by
  have h80 : (0x80 : UInt8).toNat = 128 := rfl
  have hc2 : (0xc2 : UInt8).toNat = 194 := rfl
  have hdf : (0xdf : UInt8).toNat = 223 := rfl
  have he0 : (0xe0 : UInt8).toNat = 224 := rfl
  have hef : (0xef : UInt8).toNat = 239 := rfl
  have hf0 : (0xf0 : UInt8).toNat = 240 := rfl
  have hf4 : (0xf4 : UInt8).toNat = 244 := rfl
  have hchar : assemble 0xf0 (UInt8.ofNat (v / 262144 % 8 + 0xf0))
      [UInt8.ofNat (v / 4096 % 64 + 0x80), UInt8.ofNat (v / 64 % 64 + 0x80),
        UInt8.ofNat (v % 64 + 0x80)] = c := by
    rw [← hc]
    refine congrArg Char.ofNat ?_
    simp only [List.foldl_cons, List.foldl_nil]
    rw [toNat_ofNat_byte (by omega), toNat_ofNat_byte (by omega), toNat_ofNat_byte (by omega),
      toNat_ofNat_byte (by omega)]
    omega
  rw [decodeFrom_four offset r _ _ _ _ (within_secondRange_four h1 h2) (isTail_ofNat (v / 64))
    (isTail_ofNat v), hchar]
  · rw [ofNat_lt_iff (by omega)]
    omega
  · rw [within_ofNat_iff (by omega)]
    omega
  · rw [within_ofNat_iff (by omega)]
    omega
  · rw [within_ofNat_iff (by omega)]
    omega

end

/-- The bytes of a character are read as that character, whatever follows them. There is one case
for each number of bytes, by how large the number of the character is, and only the last two have to
know that it is a character. -/
theorem decodeFrom_encodeChar (offset : Nat) (c : Char) (r : List UInt8) :
    ∃ next, decodeFrom offset (String.utf8EncodeChar c ++ r) = (c :: ·) <$> decodeFrom next r := by
  have hc : Char.ofNat c.val.toNat = c := Char.ofNat_toNat c
  have hv : c.val.toNat < 0xd800 ∨ 0xdfff < c.val.toNat ∧ c.val.toNat < 0x110000 := c.valid
  unfold String.utf8EncodeChar
  generalize c.val.toNat = v at hc hv ⊢
  dsimp only
  rcases Nat.lt_or_ge 0x7f v with h1 | h1
  · rw [if_neg (Nat.not_le_of_lt h1)]
    rcases Nat.lt_or_ge 0x7ff v with h2 | h2
    · rw [if_neg (Nat.not_le_of_lt h2)]
      rcases Nat.lt_or_ge 0xffff v with h3 | h3
      · rw [if_neg (Nat.not_le_of_lt h3)]
        exact ⟨offset + 4, decodeFrom_encoded_four hc offset r h3 (by omega)⟩
      · rw [if_pos h3]
        exact ⟨offset + 3, decodeFrom_encoded_three hc offset r h2 h3 (by omega)⟩
    · rw [if_pos h2]
      exact ⟨offset + 2, decodeFrom_encoded_two hc offset r h1 h2⟩
  · rw [if_pos h1]
    exact ⟨offset + 1, decodeFrom_encoded_one hc offset r h1⟩

/-! ## The bytes of a text -/

/-- The bytes of a text are read from any offset on, which matters to faults alone. The induction is
on the text. So a text of any length is read back in full, with no fault on the way. -/
theorem decodeFrom_encode (cs : List Char) : ∀ offset, decodeFrom offset (encode cs) = .ok cs := by
  induction cs with
  | nil => exact fun _ => rfl
  | cons c cs ih =>
    intro offset
    obtain ⟨next, h⟩ := decodeFrom_encodeChar offset c (encode cs)
    rw [encode, List.flatMap_cons]
    change decodeFrom offset (String.utf8EncodeChar c ++ encode cs) = _
    rw [h, ih next]
    rfl

/-- The bytes of a text are read as that text. -/
theorem decode_encode (cs : List Char) : decode (encode cs) = .ok cs :=
  decodeFrom_encode cs 0

end SymbolTable.Utf8
