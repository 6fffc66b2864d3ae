import SymbolTable.Proofs.Row.Layout
import SymbolTable.Proofs.Text.WellFormed

/-!
# One layout for each row

What a reader takes from the front of its input is what the writer makes of the value, field by
field and so for a row. With the other direction this says which bytes are read as a row: those that
begin with the bytes of that row (`decode_eq_ok_iff`).
-/

namespace SymbolTable.Row.Layout

variable {α β : Type}

/-- Two readers one after the other have each taken their share. So what a reader of a row has taken
can be followed field by field, in the order of the layout. -/
theorem exists_of_bind {a : Reader α} {f : α → Reader β} {bytes rest : List UInt8} {y : β}
    (h : (a >>= f) bytes = .ok (y, rest)) :
    ∃ x between, a bytes = .ok (x, between) ∧ f x between = .ok (y, rest) := by
  change (do let p ← a bytes; f p.1 p.2) = _ at h
  cases ha : a bytes with
  | error e =>
    rw [ha] at h
    cases h
  | ok p =>
    rw [ha] at h
    exact ⟨p.1, p.2, rfl, h⟩

/-! ## Fields -/

/-- Only the low bytes of a number make up its word, so the one read has no more than these. The
induction is on the number of bytes, the low one first. -/
theorem bytes_of_readWord {width n : Nat} {bytes rest : List UInt8}
    (h : readWord width bytes = .ok (n, rest)) :
    n < Nat.pow 256 width ∧ bytes = word width n ++ rest := by
  induction width generalizing n bytes with
  | zero =>
    cases h
    exact ⟨Nat.one_pos, rfl⟩
  | succ width ih =>
    cases bytes with
    | nil => cases h
    | cons b bytes =>
      change (do let p ← readWord width bytes; .ok (b.toNat + 256 * p.1, p.2)) = _ at h
      cases hread : readWord width bytes with
      | error e =>
        rw [hread] at h
        cases h
      | ok p =>
        rw [hread] at h
        obtain ⟨rfl, rfl⟩ : b.toNat + 256 * p.1 = n ∧ p.2 = rest := Prod.mk.inj (Except.ok.inj h)
        obtain ⟨hlt, hbytes⟩ := ih hread
        have hb : b.toNat < 256 := b.toNat_lt
        have hhigh : (b.toNat + 256 * p.1) / 256 = p.1 := by omega
        have hlow : UInt8.ofNat (b.toNat + 256 * p.1) = b := by
          rw [← UInt8.toNat_inj, UInt8.toNat_ofNat']
          omega
        have hpow : Nat.pow 256 (width + 1) = Nat.pow 256 width * 256 := rfl
        refine ⟨by omega, ?_⟩
        rw [word, hhigh, hlow, List.cons_append, ← hbytes]

/-- The bytes that were read are as many as were asked for, from the front of the input. -/
theorem bytes_of_readBytes {n : Nat} {bytes rest taken : List UInt8}
    (h : readBytes n bytes = .ok (taken, rest)) : taken.length = n ∧ bytes = taken ++ rest := by
  change (if bytes.length < n then _ else _ : Reader _) bytes = _ at h
  split at h
  · cases h
  · rename_i hlen
    cases h
    exact ⟨List.length_take_of_le (Nat.le_of_not_lt hlen), (List.take_append_drop n bytes).symm⟩

/-- What is read as a text are the bytes of this text, which fits. That there are no others is
`Utf8.encode_of_decode`. -/
theorem bytes_of_readText {s : String} {bytes rest : List UInt8}
    (h : readText bytes = .ok (s, rest)) : textFits s = true ∧ bytes = text s ++ rest := by
  obtain ⟨n, afterLength, hn, hafter⟩ := exists_of_bind h
  obtain ⟨taken, afterText, htaken, hdecoded⟩ := exists_of_bind hafter
  obtain ⟨hlt, rfl⟩ := bytes_of_readWord hn
  obtain ⟨rfl, rfl⟩ := bytes_of_readBytes htaken
  cases hdecode : Utf8.decode taken with
  | error cause =>
    rw [hdecode] at hdecoded
    cases hdecoded
  | ok cs =>
    rw [hdecode] at hdecoded
    cases hdecoded
    have hbytes : Utf8.encode (String.ofList cs).toList = taken := by
      rw [String.toList_ofList]
      exact Utf8.encode_of_decode hdecode
    constructor
    · rw [textFits, hbytes]
      exact decide_eq_true hlt
    · rw [text, hbytes, List.append_assoc]

/-- What is read as an id is the word of its number. It is not zero, or it would not have been read
as an id. -/
theorem bytes_of_readId {id : SymbolId} {bytes rest : List UInt8}
    (h : readId bytes = .ok (id, rest)) : bytes = word 8 id.val.toNat ++ rest := by
  obtain ⟨n, afterId, hn, hafter⟩ := exists_of_bind h
  obtain ⟨hlt, rfl⟩ := bytes_of_readWord hn
  cases hid : SymbolId.ofRaw? (UInt64.ofNat n) with
  | none =>
    rw [hid] at hafter
    cases hafter
  | some id' =>
    rw [hid] at hafter
    cases hafter
    have hval : id.val.toNat = n := by
      rw [← SymbolId.ofRaw?_eq_some_iff.1 hid]
      exact UInt64.toNat_ofNat_of_lt' hlt
    rw [hval]

/-- What is read as a parent is the word of its number, zero for the global scope. Every word is the
number of some parent, so none is refused. -/
theorem bytes_of_readParent {p : Scope} {bytes rest : List UInt8}
    (h : readParent bytes = .ok (p, rest)) : bytes = parent p ++ rest := by
  obtain ⟨n, afterVariant, hn, hafter⟩ := exists_of_bind h
  obtain ⟨-, rfl⟩ := bytes_of_readWord hn
  split at hafter
  · rename_i hglobal
    cases hafter
    rw [hglobal, parent]
  · split at hafter
    · rename_i hsymbol
      obtain ⟨id, afterId, hid, hlast⟩ := exists_of_bind hafter
      cases hlast
      rw [bytes_of_readId hid, hsymbol, parent, List.append_assoc]
    · cases hafter

/-- What is read as a text that may be missing are its bytes, with the byte in front of it that says
whether there is one. -/
theorem bytes_of_readOptionalText {o : Option String} {bytes rest : List UInt8}
    (h : readOptionalText bytes = .ok (o, rest)) :
    o.all textFits = true ∧ bytes = optionalText o ++ rest := by
  obtain ⟨n, afterMark, hn, hafter⟩ := exists_of_bind h
  obtain ⟨-, rfl⟩ := bytes_of_readWord hn
  split at hafter
  · rename_i hnone
    cases hafter
    exact ⟨rfl, by rw [hnone]; rfl⟩
  · split at hafter
    · rename_i hsome
      obtain ⟨s, afterText, hs, hlast⟩ := exists_of_bind hafter
      cases hlast
      obtain ⟨hfits, hbytes⟩ := bytes_of_readText hs
      exact ⟨hfits, by rw [hbytes, hsome]; rfl⟩
    · cases hafter

/-! ## Rows -/

/-- What is read as a row are the bytes of that row, whose texts fit. The fields are taken one after
the other, and the lemma of each says which bytes were read. -/
theorem bytes_of_readRow {r : Row} {bytes rest : List UInt8}
    (h : readRow bytes = .ok (r, rest)) : fits r = true ∧ bytes = encode r ++ rest := by
  obtain ⟨id, b₁, hid, h⟩ := exists_of_bind h
  obtain ⟨tag, b₂, htag, h⟩ := exists_of_bind h
  obtain ⟨space, b₃, hspace, h⟩ := exists_of_bind h
  obtain ⟨bits, b₄, hbits, h⟩ := exists_of_bind h
  obtain ⟨offset, b₅, hoffset, h⟩ := exists_of_bind h
  obtain ⟨name, b₆, hname, h⟩ := exists_of_bind h
  obtain ⟨scope, b₇, hscope, h⟩ := exists_of_bind h
  obtain ⟨flags, b₈, hflags, h⟩ := exists_of_bind h
  obtain ⟨data1, b₉, hdata1, h⟩ := exists_of_bind h
  obtain ⟨data2, b₁₀, hdata2, h⟩ := exists_of_bind h
  obtain ⟨data3, b₁₁, hdata3, h⟩ := exists_of_bind h
  cases h
  obtain ⟨hnameFits, hname⟩ := bytes_of_readText hname
  obtain ⟨hdataFits, hdata3⟩ := bytes_of_readOptionalText hdata3
  obtain ⟨htagLt, htag⟩ := bytes_of_readWord htag
  obtain ⟨hspaceLt, hspace⟩ := bytes_of_readWord hspace
  obtain ⟨hbitsLt, hbits⟩ := bytes_of_readWord hbits
  obtain ⟨hoffsetLt, hoffset⟩ := bytes_of_readWord hoffset
  obtain ⟨hflagsLt, hflags⟩ := bytes_of_readWord hflags
  obtain ⟨hdata1Lt, hdata1⟩ := bytes_of_readWord hdata1
  obtain ⟨hdata2Lt, hdata2⟩ := bytes_of_readWord hdata2
  refine ⟨Bool.and_eq_true_iff.2 ⟨hnameFits, hdataFits⟩, ?_⟩
  rw [bytes_of_readId hid, htag, hspace, hbits, hoffset, hname, bytes_of_readParent hscope, hflags,
    hdata1, hdata2, hdata3]
  simp only [encode, List.append_assoc, UInt8.toNat_ofNat_of_lt' htagLt,
    UInt16.toNat_ofNat_of_lt' hspaceLt, UInt8.toNat_ofNat_of_lt' hbitsLt,
    UInt64.toNat_ofNat_of_lt' hoffsetLt, UInt8.toNat_ofNat_of_lt' hflagsLt,
    UInt64.toUInt64_toInt64, UInt32.toUInt32_toInt32, UInt64.toNat_ofNat_of_lt' hdata1Lt,
    UInt32.toNat_ofNat_of_lt' hdata2Lt]

/-- What is read as a row begins with the bytes of that row, whose texts fit. What follows them is
not read, so other bytes may stand behind a row. -/
theorem encode_isPrefix_of_decode {r : Row} {bytes : List UInt8} (h : decode bytes = .ok r) :
    fits r = true ∧ encode r <+: bytes := by
  rw [decode] at h
  cases hread : readRow bytes with
  | error e =>
    rw [hread] at h
    cases h
  | ok p =>
    rw [hread] at h
    obtain rfl : p.1 = r := Except.ok.inj h
    obtain ⟨hfits, hbytes⟩ := bytes_of_readRow hread
    exact ⟨hfits, p.2, hbytes.symm⟩

/-- **A row has one layout.** The bytes that are read as a row are exactly those that begin with the
bytes of this row, whatever follows them, if its texts have fewer bytes than a word can count; a row
with a longer text is never read. So whatever is malformed anywhere, a mark, a variant, a length, a
text or an id of zero, is turned away. -/
theorem decode_eq_ok_iff (bytes : List UInt8) (r : Row) :
    decode bytes = .ok r ↔ fits r = true ∧ encode r <+: bytes := by
  constructor
  · exact encode_isPrefix_of_decode
  · rintro ⟨hfits, rest, rfl⟩
    exact decode_encode_append hfits rest

end SymbolTable.Row.Layout
