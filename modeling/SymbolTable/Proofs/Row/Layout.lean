import SymbolTable.Proofs.Text.Utf8
import SymbolTable.Row.Layout

/-!
# Reading rows back

A reader `Reads` bytes as a value if it takes exactly these bytes from the front of its input and
leaves what follows. Each reader of a field reads what the writer of that field produces, and one
after the other they read the bytes of a row as the row (`decode_encode`), if its texts fit.
-/

namespace SymbolTable.Row.Layout

variable {α β : Type}

/-- Whether a reader takes these bytes, whatever follows them, for `x`. -/
def Reads (reader : Reader α) (bytes : List UInt8) (x : α) : Prop :=
  ∀ rest, reader (bytes ++ rest) = .ok (x, rest)

/-- A reader that takes nothing reads no bytes. -/
theorem Reads.pure (x : α) : Reads (Pure.pure x) [] x :=
  fun _ => rfl

/-- Readers one after the other read what their writers have put one after the other. -/
theorem Reads.bind {a : Reader α} {f : α → Reader β} {bs cs : List UInt8} {x : α} {y : β}
    (ha : Reads a bs x) (hf : Reads (f x) cs y) : Reads (a >>= f) (bs ++ cs) y := by
  intro rest
  rw [List.append_assoc]
  change (do let p ← a (bs ++ (cs ++ rest)); f p.1 p.2) = _
  rw [ha (cs ++ rest)]
  exact hf rest

/-- The last reader of a chain takes no more bytes. -/
theorem Reads.bind_pure {a : Reader α} {f : α → Reader β} {bs : List UInt8} {x : α} {y : β}
    (ha : Reads a bs x) (hf : Reads (f x) [] y) : Reads (a >>= f) bs y := by
  have h := ha.bind hf
  rwa [List.append_nil] at h

/-! ## Fields -/

/-- A word is read as the number modulo what fits into it, the low byte first. The induction is on
the number of bytes, and each of them is the number modulo 256 of what is left. -/
theorem reads_word (width n : Nat) : Reads (readWord width) (word width n) (n % Nat.pow 256 width) := by
  induction width generalizing n with
  | zero =>
    intro rest
    change Except.ok (0, rest) = Except.ok (n % 1, rest)
    rw [Nat.mod_one]
  | succ width ih =>
    intro rest
    have hb : (UInt8.ofNat n).toNat = n % 256 := UInt8.toNat_ofNat'
    change (do let p ← readWord width (word width (n / 256) ++ rest)
               .ok ((UInt8.ofNat n).toNat + 256 * p.1, p.2)) = _
    rw [ih (n / 256) rest, hb]
    change Except.ok (n % 256 + 256 * (n / 256 % 256 ^ width), rest) =
      Except.ok (n % 256 ^ (width + 1), rest)
    rw [Nat.pow_succ, Nat.mul_comm (256 ^ width), Nat.mod_mul]

/-- A number that has room is read as itself. -/
theorem reads_word_of_lt {width n : Nat} (h : n < Nat.pow 256 width) :
    Reads (readWord width) (word width n) n := by
  have := reads_word width n
  rwa [Nat.mod_eq_of_lt h] at this

/-- As many bytes as are asked for are read as they are. This is the reader of texts once their
length was read. -/
theorem reads_bytes (bytes : List UInt8) : Reads (readBytes bytes.length) bytes bytes := by
  intro rest
  have hlen : ¬ (bytes ++ rest).length < bytes.length := by simp
  have hread : readBytes bytes.length (bytes ++ rest) =
      .ok ((bytes ++ rest).take bytes.length, (bytes ++ rest).drop bytes.length) := by
    change (if (bytes ++ rest).length < bytes.length then _ else _ : Reader _) (bytes ++ rest) = _
    rw [if_neg hlen]
    rfl
  rw [hread, List.take_left, List.drop_left]

/-- A text whose length fits into its word is read as itself. That it is read as UTF-8 is
`Utf8.decode_encode`. -/
theorem reads_text {s : String} (h : textFits s = true) : Reads readText (text s) s := by
  have hlen : (Utf8.encode s.toList).length < 256 ^ 8 := of_decide_eq_true h
  refine (reads_word_of_lt hlen).bind ((reads_bytes _).bind_pure ?_)
  rw [Utf8.decode_encode]
  have hs : String.ofList s.toList = s := String.ofList_toList
  dsimp only
  rw [hs]
  exact Reads.pure s

/-- An id is read as itself, since it is not zero. It is read as a word and then as the id with this
number. -/
theorem reads_id (id : SymbolId) : Reads readId (word 8 id.val.toNat) id := by
  have hlt : id.val.toNat < 256 ^ 8 := id.val.toNat_lt
  refine (reads_word_of_lt hlt).bind_pure ?_
  rw [UInt64.ofNat_toNat, SymbolId.ofRaw?_val]
  exact Reads.pure id

/-- A parent is read as itself, the global scope from a zero. An id is not zero, so a parent in a
scope is not taken for the global one. -/
theorem reads_parent (p : Scope) : Reads readParent (parent p) p := by
  cases p with
  | global => exact (reads_word_of_lt (by decide)).bind_pure (Reads.pure _)
  | of id =>
    exact (reads_word_of_lt (by decide)).bind ((reads_id id).bind_pure (Reads.pure _))

/-- A text that may be missing is read as itself, by the byte in front of it that says whether there
is one. -/
theorem reads_optionalText {o : Option String} (h : o.all textFits = true) :
    Reads readOptionalText (optionalText o) o := by
  cases o with
  | none => exact (reads_word_of_lt (by decide : 0 < 256 ^ 1)).bind_pure (Reads.pure _)
  | some s =>
    have hmark : Reads (readWord 1) [1] 1 := reads_word_of_lt (by decide)
    exact hmark.bind ((reads_text h).bind_pure (Reads.pure _))

/-! ## Rows -/

/-- The bytes of a row whose texts fit are read as that row. The readers of the fields are chained
in the order in which the writers put them, and each of them is given by a lemma above. -/
theorem reads_row {r : Row} (h : fits r = true) : Reads readRow (encode r) r := by
  obtain ⟨hname, hdata⟩ := (Bool.and_eq_true_iff.1 h)
  have htag : r.tag.toNat < 256 ^ 1 := r.tag.toNat_lt
  have hspace : r.address.space.id.toNat < 256 ^ 2 := r.address.space.id.toNat_lt
  have hbits : r.address.space.bits.toNat < 256 ^ 1 := r.address.space.bits.toNat_lt
  have hoffset : r.address.offset.toNat < 256 ^ 8 := r.address.offset.toNat_lt
  have hflags : r.flags.toNat < 256 ^ 1 := r.flags.toNat_lt
  have hdata1 : r.data1.toUInt64.toNat < 256 ^ 8 := r.data1.toUInt64.toNat_lt
  have hdata2 : r.data2.toUInt32.toNat < 256 ^ 4 := r.data2.toUInt32.toNat_lt
  simp only [encode, List.append_assoc]
  refine (reads_id r.id).bind ((reads_word_of_lt htag).bind ((reads_word_of_lt hspace).bind
    ((reads_word_of_lt hbits).bind ((reads_word_of_lt hoffset).bind ((reads_text hname).bind
    ((reads_parent r.parent).bind ((reads_word_of_lt hflags).bind ((reads_word_of_lt hdata1).bind
    ((reads_word_of_lt hdata2).bind ((reads_optionalText hdata).bind_pure ?_))))))))))
  simp only [UInt8.ofNat_toNat, UInt16.ofNat_toNat, UInt32.ofNat_toNat, UInt64.ofNat_toNat,
    Int64.toInt64_toUInt64, Int32.toInt32_toUInt32]
  exact Reads.pure r

/-- The bytes of a row whose texts fit are a row, this one, also with other bytes behind them. -/
theorem decode_encode_append {r : Row} (h : fits r = true) (rest : List UInt8) :
    decode (encode r ++ rest) = .ok r := by
  rw [decode, reads_row h rest]
  rfl

/-- The bytes of a row whose texts fit are read as this row. So what a store on disk keeps is what
was put. -/
theorem decode_encode {r : Row} (h : fits r = true) : decode (encode r) = .ok r := by
  have := decode_encode_append h []
  rwa [List.append_nil] at this

end SymbolTable.Row.Layout
