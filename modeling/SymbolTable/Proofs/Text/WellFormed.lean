import SymbolTable.Proofs.Text.Utf8

/-!
# Only the bytes of a text are read

What the reader accepts is the UTF-8 form of what it reads (`encode_of_decode`), so a text has one
sequence of bytes. The byte bounds carry the argument: within them the number that a character is
assembled from is one that this many bytes are needed for, and it is no surrogate.
-/

namespace SymbolTable.Utf8

/-! ## Bounds on bytes -/

/-- A byte lies within bounds if its number does. -/
theorem within_iff {low high b : UInt8} :
    within low high b = true ↔ low.toNat ≤ b.toNat ∧ b.toNat ≤ high.toNat := by
  simp only [within, UInt8.le_iff_toNat_le, Bool.and_eq_true, decide_eq_true_iff]

/-- The tail bytes are those from 80 to BF. -/
theorem isTail_iff {b : UInt8} : isTail b = true ↔ 0x80 ≤ b.toNat ∧ b.toNat ≤ 0xbf :=
  within_iff

/-- What the bounds on the second byte of a character say, by the first one. For four first bytes
they are tighter than those of a tail byte, at one end. -/
theorem bounds_of_within_secondRange {b b₁ : UInt8}
    (h : within (secondRange b).1 (secondRange b).2 b₁ = true) :
    0x80 ≤ b₁.toNat ∧ b₁.toNat ≤ 0xbf ∧
      (b.toNat = 0xe0 → 0xa0 ≤ b₁.toNat) ∧ (b.toNat = 0xed → b₁.toNat ≤ 0x9f) ∧
      (b.toNat = 0xf0 → 0x90 ≤ b₁.toNat) ∧ (b.toNat = 0xf4 → b₁.toNat ≤ 0x8f) := by
  have hb : b.toNat < 256 := b.toNat_lt
  have hrange := secondRange_ofNat hb
  rw [UInt8.ofNat_toNat] at hrange
  rw [hrange, within_iff] at h
  have ha0 : (0xa0 : UInt8).toNat = 160 := rfl
  have h9f : (0x9f : UInt8).toNat = 159 := rfl
  have h90 : (0x90 : UInt8).toNat = 144 := rfl
  have h8f : (0x8f : UInt8).toNat = 143 := rfl
  have h80 : (0x80 : UInt8).toNat = 128 := rfl
  have hbf : (0xbf : UInt8).toNat = 191 := rfl
  by_cases he0 : b.toNat = 0xe0
  · simp only [if_pos he0, ha0, hbf] at h
    omega
  by_cases hed : b.toNat = 0xed
  · simp only [if_neg he0, if_pos hed, h80, h9f] at h
    omega
  by_cases hf0 : b.toNat = 0xf0
  · simp only [if_neg he0, if_neg hed, if_pos hf0, h90, hbf] at h
    omega
  by_cases hf4 : b.toNat = 0xf4
  · simp only [if_neg he0, if_neg hed, if_neg hf0, if_pos hf4, h80, h8f] at h
    omega
  · simp only [if_neg he0, if_neg hed, if_neg hf0, if_neg hf4, h80, hbf] at h
    omega

/-! ## The bytes of an assembled character -/

/-- The number of a character given by its number. -/
theorem toNat_val_ofNat {v : Nat} (h : v.isValidChar) : (Char.ofNat v).val.toNat = v := by
  rw [Char.ofNat, dif_pos h]
  rfl

section
variable {b b₁ b₂ b₃ : UInt8}

/-- The character of a byte below 80 is written as this byte. Its number is below 128, for which the
encoding has this one form. -/
theorem encodeChar_one (h : b < 0x80) : String.utf8EncodeChar (Char.ofNat b.toNat) = [b] := by
  have hb : b.toNat < 128 := UInt8.lt_iff_toNat_lt.1 h
  have hv : b.toNat.isValidChar := Or.inl (by omega)
  unfold String.utf8EncodeChar
  dsimp only
  rw [toNat_val_ofNat hv, if_pos (by omega), UInt8.ofNat_toNat]

/-- The character that two bytes are assembled to is written as these two. The bounds on the first
byte leave out overlong forms. -/
theorem encodeChar_two (h : within 0xc2 0xdf b = true) (h1 : isTail b₁ = true) :
    String.utf8EncodeChar (assemble 0xc0 b [b₁]) = [b, b₁] := by
  obtain ⟨hlow, hhigh⟩ := within_iff.1 h
  obtain ⟨h1low, h1high⟩ := isTail_iff.1 h1
  have hc2 : (0xc2 : UInt8).toNat = 194 := rfl
  have hdf : (0xdf : UInt8).toNat = 223 := rfl
  have hc0 : (0xc0 : UInt8).toNat = 192 := rfl
  rw [hc2] at hlow
  rw [hdf] at hhigh
  obtain ⟨v, hv⟩ : ∃ v, v = 64 * (b.toNat - 192) + (b₁.toNat - 128) := ⟨_, rfl⟩
  have hassemble : assemble 0xc0 b [b₁] = Char.ofNat v := by
    rw [hv]
    rfl
  have hvalid : v.isValidChar := Or.inl (by omega)
  unfold String.utf8EncodeChar
  dsimp only
  rw [hassemble, toNat_val_ofNat hvalid, if_neg (by omega), if_pos (by omega),
    (ofNat_eq_iff (by omega)).2 (by omega : v / 64 % 32 + 192 = b.toNat),
    (ofNat_eq_iff (by omega)).2 (by omega : v % 64 + 128 = b₁.toNat)]

/-- The character that three bytes are assembled to is written as these three. The bounds on the
second byte leave out overlong forms and surrogates. -/
theorem encodeChar_three (h : within 0xe0 0xef b = true)
    (h1 : within (secondRange b).1 (secondRange b).2 b₁ = true) (h2 : isTail b₂ = true) :
    String.utf8EncodeChar (assemble 0xe0 b [b₁, b₂]) = [b, b₁, b₂] := by
  obtain ⟨hlow, hhigh⟩ := within_iff.1 h
  obtain ⟨h1low, h1high, he0, hed, -, -⟩ := bounds_of_within_secondRange h1
  obtain ⟨h2low, h2high⟩ := isTail_iff.1 h2
  have htoNat : (0xe0 : UInt8).toNat = 224 := rfl
  have hef : (0xef : UInt8).toNat = 239 := rfl
  rw [htoNat] at hlow
  rw [hef] at hhigh
  obtain ⟨v, hv⟩ : ∃ v, v = 64 * (64 * (b.toNat - 224) + (b₁.toNat - 128)) + (b₂.toNat - 128) :=
    ⟨_, rfl⟩
  have hassemble : assemble 0xe0 b [b₁, b₂] = Char.ofNat v := by
    rw [hv]
    rfl
  have hvalid : v < 0xd800 ∨ 0xdfff < v ∧ v < 0x110000 := by omega
  unfold String.utf8EncodeChar
  dsimp only
  rw [hassemble, toNat_val_ofNat hvalid, if_neg (by omega), if_neg (by omega), if_pos (by omega),
    (ofNat_eq_iff (by omega)).2 (by omega : v / 4096 % 16 + 224 = b.toNat),
    (ofNat_eq_iff (by omega)).2 (by omega : v / 64 % 64 + 128 = b₁.toNat),
    (ofNat_eq_iff (by omega)).2 (by omega : v % 64 + 128 = b₂.toNat)]

/-- The character that four bytes are assembled to is written as these four. The bounds on the
second byte leave out overlong forms and numbers beyond the last character. -/
theorem encodeChar_four (h : within 0xf0 0xf4 b = true)
    (h1 : within (secondRange b).1 (secondRange b).2 b₁ = true) (h2 : isTail b₂ = true)
    (h3 : isTail b₃ = true) :
    String.utf8EncodeChar (assemble 0xf0 b [b₁, b₂, b₃]) = [b, b₁, b₂, b₃] := by
  obtain ⟨hlow, hhigh⟩ := within_iff.1 h
  obtain ⟨h1low, h1high, -, -, hf0, hf4⟩ := bounds_of_within_secondRange h1
  obtain ⟨h2low, h2high⟩ := isTail_iff.1 h2
  obtain ⟨h3low, h3high⟩ := isTail_iff.1 h3
  have htoNat : (0xf0 : UInt8).toNat = 240 := rfl
  have hlast : (0xf4 : UInt8).toNat = 244 := rfl
  rw [htoNat] at hlow
  rw [hlast] at hhigh
  obtain ⟨v, hv⟩ : ∃ v, v = 64 * (64 * (64 * (b.toNat - 240) + (b₁.toNat - 128)) +
    (b₂.toNat - 128)) + (b₃.toNat - 128) := ⟨_, rfl⟩
  have hassemble : assemble 0xf0 b [b₁, b₂, b₃] = Char.ofNat v := by
    rw [hv]
    rfl
  have hvalid : v < 0xd800 ∨ 0xdfff < v ∧ v < 0x110000 := by omega
  unfold String.utf8EncodeChar
  dsimp only
  rw [hassemble, toNat_val_ofNat hvalid, if_neg (by omega), if_neg (by omega), if_neg (by omega),
    (ofNat_eq_iff (by omega)).2 (by omega : v / 262144 % 8 + 240 = b.toNat),
    (ofNat_eq_iff (by omega)).2 (by omega : v / 4096 % 64 + 128 = b₁.toNat),
    (ofNat_eq_iff (by omega)).2 (by omega : v / 64 % 64 + 128 = b₂.toNat),
    (ofNat_eq_iff (by omega)).2 (by omega : v % 64 + 128 = b₃.toNat)]

end

/-! ## Texts -/

/-- A text read as a character and what follows it has its bytes one after the other. It is one step
of the induction for each number of bytes that a character may have. -/
theorem encode_of_cons {c : Char} {read : Except Fault (List Char)} {cs : List Char}
    {front rest : List UInt8} (hc : String.utf8EncodeChar c = front)
    (h : (c :: ·) <$> read = .ok cs) (ih : ∀ {tail}, read = .ok tail → encode tail = rest) :
    encode cs = front ++ rest := by
  cases read with
  | error e => cases h
  | ok tail =>
    obtain rfl : c :: tail = cs := Except.ok.inj h
    rw [← hc, ← ih rfl, encode, List.flatMap_cons]
    rfl

/-- The induction follows the reader: each character it takes is the one its bytes stand for, and in
all other cases it stops with a fault. -/
theorem encode_of_decodeFrom {offset : Nat} {bytes : List UInt8} {cs : List Char}
    (h : decodeFrom offset bytes = .ok cs) : encode cs = bytes := by
  fun_induction decodeFrom offset bytes generalizing cs with
  | case1 => cases h; rfl
  | case2 offset b r hb ih => exact encode_of_cons (encodeChar_one hb) h ih
  | case4 offset b _ hb b₁ r h1 ih => exact encode_of_cons (encodeChar_two hb h1) h ih
  | case9 offset b _ _ hb b₁ h1 b₂ r h2 ih =>
    exact encode_of_cons (encodeChar_three hb (by simpa using h1) h2) h ih
  | case16 offset b _ _ _ hb b₁ h1 b₂ h2 b₃ r h3 ih =>
    exact encode_of_cons (encodeChar_four hb (by simpa using h1) (by simpa using h2) h3) h ih
  | _ => cases h

/-- What is read as a text are the bytes of that text. -/
theorem encode_of_decode {bytes : List UInt8} {cs : List Char} (h : decode bytes = .ok cs) :
    encode cs = bytes :=
  encode_of_decodeFrom h

end SymbolTable.Utf8
