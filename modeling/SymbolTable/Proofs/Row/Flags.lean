import SymbolTable.Row

/-!
# The flags of rows

The provenance and the pinned mark share one byte, and writing one of them leaves the other as it
was. The other bits are reserved, and nothing changes them. Writing what is there already changes
nothing.
-/

namespace SymbolTable.Row

/-- A new row has the provenance that it is made with. -/
theorem ofBits_rank_and (p : Provenance) : Provenance.ofBits (p.rank &&& provenanceBits) = p := by
  cases p <;> decide

/-- What is put together of two bytes and masked is put together of what the mask leaves of each. -/
theorem or_and (x y z : UInt8) : (x ||| y) &&& z = (x &&& z) ||| (y &&& z) :=
  UInt8.toBitVec_inj.1 BitVec.and_or_distrib_right

/-- The provenance of a row is the one that was written. The bits are cleared before the rank is put
in their place. -/
@[simp] theorem provenance_withProvenance (r : Row) (p : Provenance) :
    (r.withProvenance p).provenance = p := by
  have hclear : r.flags &&& ~~~provenanceBits &&& provenanceBits = 0 := by
    rw [UInt8.and_assoc, UInt8.not_and_self, UInt8.and_zero]
  show Provenance.ofBits ((r.flags &&& ~~~provenanceBits ||| p.rank) &&& provenanceBits) = p
  rw [or_and, hclear, UInt8.zero_or, ofBits_rank_and]

/-- To pin a row leaves its provenance as it was, for the two have no bit in common. The bits of the
provenance are masked before and after, and the mask leaves nothing of the pinned bit. -/
@[simp] theorem provenance_withPinned (r : Row) (pinned : Bool) :
    (r.withPinned pinned).provenance = r.provenance := by
  show Provenance.ofBits ((if pinned then _ else _) &&& provenanceBits) = r.provenance
  cases pinned with
  | true =>
    have hapart : pinnedBit &&& provenanceBits = 0 := by decide
    rw [if_pos rfl, or_and, hapart, UInt8.or_zero, provenance]
  | false =>
    have hwithin : ~~~pinnedBit &&& provenanceBits = provenanceBits := by decide
    rw [if_neg Bool.false_ne_true, UInt8.and_assoc, hwithin, provenance]

/-! ## Reserved bits -/

/-- The bits of the flags that hold neither the provenance nor the pinned mark. -/
def reservedBits : UInt8 := 0xf8

/-- To write a provenance leaves the reserved bits as they were. The rank has no bit beside the two,
and the mask that clears them lets the others through. -/
@[simp] theorem reserved_withProvenance (r : Row) (p : Provenance) :
    (r.withProvenance p).flags &&& reservedBits = r.flags &&& reservedBits := by
  show (r.flags &&& ~~~provenanceBits ||| p.rank) &&& reservedBits = _
  have hwithin : ~~~provenanceBits &&& reservedBits = reservedBits := by decide
  have hapart : p.rank &&& reservedBits = 0 := by cases p <;> decide
  rw [or_and, UInt8.and_assoc, hwithin, hapart, UInt8.or_zero]

/-- To pin a row leaves the reserved bits as they were. They are neither the bits of the provenance
nor the pinned bit, and every byte is put together from the three. -/
@[simp] theorem reserved_withPinned (r : Row) (pinned : Bool) :
    (r.withPinned pinned).flags &&& reservedBits = r.flags &&& reservedBits := by
  show (if pinned then _ else _) &&& reservedBits = _
  cases pinned with
  | true =>
    have hapart : pinnedBit &&& reservedBits = 0 := by decide
    rw [if_pos rfl, or_and, hapart, UInt8.or_zero]
  | false =>
    have hwithin : ~~~pinnedBit &&& reservedBits = reservedBits := by decide
    rw [if_neg Bool.false_ne_true, UInt8.and_assoc, hwithin]

/-! ## Writing what is there -/

/-- A byte is put together from what a mask clears and what it retains. This is compared bit by
bit. -/
theorem clear_or_retain (x mask : UInt8) : (x &&& ~~~mask) ||| (x &&& mask) = x := by
  apply UInt8.toBitVec_inj.1
  ext i
  simp only [UInt8.toBitVec_or, UInt8.toBitVec_and, UInt8.toBitVec_not, BitVec.getElem_or,
    BitVec.getElem_and, BitVec.getElem_not]
  cases x.toBitVec[i] <;> cases mask.toBitVec[i] <;> rfl

/-- The two bits that hold the provenance are its rank. All four values of the two bits are the rank
of a provenance, so none of them is lost by reading it and writing it again. -/
theorem rank_ofBits_and (x : UInt8) :
    (Provenance.ofBits (x &&& provenanceBits)).rank = x &&& provenanceBits := by
  have hself : x &&& provenanceBits &&& 3 = x &&& provenanceBits := by
    rw [UInt8.and_assoc]
    rfl
  have hle : (x &&& provenanceBits).toNat ≤ 3 := by
    rw [UInt8.toNat_and]
    exact Nat.and_le_right
  rw [Provenance.ofBits, hself]
  generalize x &&& provenanceBits = bits at hle ⊢
  split
  · exact (‹bits = 0›).symm
  · split
    · exact (‹bits = 1›).symm
    · split
      · exact (‹bits = 2›).symm
      · apply UInt8.toNat_inj.1
        simp only [← UInt8.toNat_inj] at *
        show 3 = bits.toNat
        simp at *
        omega

/-- To write the provenance that is there changes nothing, not even a bit. -/
@[simp] theorem withProvenance_provenance (r : Row) : r.withProvenance r.provenance = r := by
  have hflags : (r.flags &&& ~~~provenanceBits) ||| r.provenance.rank = r.flags := by
    rw [provenance, rank_ofBits_and, clear_or_retain]
  rw [withProvenance, hflags]

/-- The bit of the pinned mark is either clear or set, and nothing else is left by its mask. -/
theorem and_pinnedBit (x : UInt8) : x &&& pinnedBit = 0 ∨ x &&& pinnedBit = pinnedBit := by
  have hbit : x.toBitVec &&& BitVec.twoPow 8 2 =
      if x.toBitVec.getLsbD 2 then BitVec.twoPow 8 2 else 0 := BitVec.and_twoPow _ _
  split at hbit
  · exact .inr (UInt8.toBitVec_inj.1 hbit)
  · exact .inl (UInt8.toBitVec_inj.1 hbit)

/-- To pin a row that is pinned, or to unpin one that is not, changes nothing. So a row that is read
and written again with the same mark is the same to the byte. -/
@[simp] theorem withPinned_isPinned (r : Row) : r.withPinned r.isPinned = r := by
  have hflags : (if r.isPinned then r.flags ||| pinnedBit else r.flags &&& ~~~pinnedBit) = r.flags := by
    have hwhole := clear_or_retain r.flags pinnedBit
    rcases and_pinnedBit r.flags with hclear | hset
    · rw [hclear, UInt8.or_zero] at hwhole
      rw [isPinned, hclear, hwhole]
      rfl
    · rw [hset] at hwhole
      have hpinned : r.isPinned = true := by
        rw [isPinned, hset]
        rfl
      rw [hpinned, if_pos rfl]
      calc r.flags ||| pinnedBit
          = (r.flags &&& ~~~pinnedBit ||| pinnedBit) ||| pinnedBit := by rw [hwhole]
        _ = r.flags := by rw [UInt8.or_assoc, UInt8.or_self, hwhole]
  rw [withPinned, hflags]

/-- Whether a row is pinned is what was written. The bit is cleared before it is set, if it is. -/
@[simp] theorem isPinned_withPinned (r : Row) (pinned : Bool) : (r.withPinned pinned).isPinned = pinned := by
  show decide ((if pinned then _ else _) &&& pinnedBit ≠ 0) = pinned
  cases pinned with
  | true =>
    rw [if_pos rfl, or_and, UInt8.and_self]
    rcases and_pinnedBit r.flags with hclear | hset
    · rw [hclear, UInt8.zero_or]
      rfl
    · rw [hset, UInt8.or_self]
      rfl
  | false =>
    have hclear : ~~~pinnedBit &&& pinnedBit = 0 := by decide
    rw [if_neg Bool.false_ne_true, UInt8.and_assoc, hclear, UInt8.and_zero]
    rfl

end SymbolTable.Row
