import SymbolTable.Proofs.Store.Indexed
import SymbolTable.Proofs.Store.Memory
import SymbolTable.Store

/-!
# What a store keeps

Whatever keeps the rows of a store, what its calls answer follows from three things alone: the list
of its rows, how many writes there were, and how many ids have been drawn. This module says so, call
by call, and what a call that changes the store makes of the three.
-/

namespace SymbolTable.Store

namespace Backend

/-- The rows that are kept, by ascending id. -/
def rows : Backend → List Row
  | .memory m => m.scan
  | .indexed d => d.rows

/-- How many ids have been drawn. -/
def drawn : Backend → Nat
  | .memory m => m.allocator.position - 1
  | .indexed d => d.nextId.toNat - 1

/-- What keeps the rows is in order: the next id is not zero, and indexes are in step. -/
def Sound : Backend → Prop
  | .memory m => m.allocator.position ≠ 0
  | .indexed d => d.Sound ∧ d.nextId ≠ 0

/-- A store in memory that holds nothing is in order. -/
theorem sound_memory : (memory Memory.empty).Sound :=
  Nat.one_ne_zero

/-- A store with indexes that holds nothing is in order. -/
theorem sound_indexed : (indexed Indexed.empty).Sound :=
  ⟨Indexed.sound_empty, by decide⟩

/-- What a row that is put makes of a store: it takes the place of the row with its id. -/
structure Puts (b : Backend) (r : Row) (b' : Backend) : Prop where
  sound : b'.Sound
  mem_rows : ∀ x, x ∈ b'.rows ↔ x = r ∨ x ∈ b.rows ∧ x.id ≠ r.id
  drawn : b'.drawn = b.drawn
  writes : b'.writes = b.writes + 1

/-- What is left of a store when the row with an id is taken out, which is a write if there is
one. -/
structure Removes (b : Backend) (id : SymbolId) (b' : Backend) : Prop where
  sound : b'.Sound
  mem_rows : ∀ x, x ∈ b'.rows ↔ x ∈ b.rows ∧ x.id ≠ id
  drawn : b'.drawn = b.drawn
  writes : b'.writes = b.writes + (b.rows.find? (·.id = id)).isSome.toNat

variable {b b' : Backend}

namespace Sound

/-! ## Answers -/

section
variable (h : b.Sound)

include h

/-- Both kinds of stores show their rows by ascending id, so lists of rows can be compared without
regard to the store that they are from. -/
theorem ascending_rows : Row.Ascending b.rows := by
  cases b with
  | memory m => exact m.ascending_scan
  | indexed d => exact Indexed.ascending_rows h.1.cells

/-- A store that is in order answers with the row under the id, and is not refused. That it answers
at all takes the order: a cell that cannot be read back is a fault. -/
theorem get_eq (id : SymbolId) : b.get id = .ok (b.rows.find? (·.id = id)) := by
  cases b with
  | memory m => exact congrArg Except.ok (m.get_eq id)
  | indexed d => exact Indexed.get_eq h.1.cells id

/-- The rows at an address are those of all rows that lie there, in the same order, whatever index
they were found by. -/
theorem rowsAt_eq (a : Address) : b.rowsAt a = .ok (b.rows.filter (·.address = a)) := by
  cases b with
  | memory m => rfl
  | indexed d =>
    show (·.filter (·.address = a)) <$> d.load (d.byAddress.ids (Indexed.addressKey a)) = _
    rw [Indexed.load_eq h.1.cells h.1.byAddress]
    refine congrArg Except.ok ((List.filter_filter ..).trans (List.filter_congr fun r _ => ?_))
    -- rows of another width are found under the key, but do not lie at the address
    by_cases ha : r.address = a <;> simp [ha]

/-- The rows in a scope are those of all rows that lie in it, in the same order. In memory all rows
are gone through, and a store with indexes looks them up by the word of the scope. No two scopes
have the same word. -/
theorem rowsIn_eq (parent : Scope) : b.rowsIn parent = .ok (b.rows.filter (·.parent = parent)) := by
  cases b with
  | memory m => rfl
  | indexed d =>
    show d.load (d.byParent.ids parent.raw) = _
    rw [Indexed.load_eq h.1.cells h.1.byParent]
    refine congrArg Except.ok (List.filter_congr fun r _ => ?_)
    exact decide_eq_decide.2 Scope.raw_inj

/-- A scan answers with all rows. -/
theorem scan_eq : b.scan = .ok b.rows := by
  cases b with
  | memory m => rfl
  | indexed d => exact Indexed.scan_eq h.1.cells

/-- The size that a store tells is the number of its rows. -/
theorem size_eq : b.size = b.rows.length := by
  cases b with
  | memory m => exact m.size_eq
  | indexed d => exact Indexed.size_eq h.1.cells

/-! ## Changes -/

/-- A row that is put is the row under its id from then on. The other rows stay, and the write is
counted. A store in memory takes every row, and one with indexes those whose texts fit. -/
theorem puts {r : Row} (hput : b.put r = .ok b') : b.Puts r b' := by
  cases b with
  | memory m =>
    cases hput
    exact ⟨h, fun _ => m.mem_scan_put, rfl, rfl⟩
  | indexed d =>
    cases hd : d.put r with
    | error fault =>
      rw [Backend.put, hd] at hput
      cases hput
    | ok d₁ =>
      obtain ⟨d₂, hd₂, hsound, hmem, hnext, hwrites⟩ := h.1.put (Indexed.fits_of_put hd)
      cases hd₂.symm.trans hd
      rw [Backend.put, hd] at hput
      cases hput
      refine ⟨⟨hsound, ?_⟩, hmem, congrArg (·.toNat - 1) hnext, hwrites⟩
      rw [hnext]
      exact h.2

/-- A row whose texts fit can be put. A store in memory takes any row. One with indexes refuses no
other ones. -/
theorem exists_put {r : Row} (hfits : Row.Layout.fits r = true) : ∃ b', b.put r = .ok b' := by
  cases b with
  | memory m => exact ⟨_, rfl⟩
  | indexed d =>
    obtain ⟨d', hput, -⟩ := h.1.put hfits
    refine ⟨.indexed d', ?_⟩
    rw [Backend.put, hput]
    rfl

/-- A row that is kept can be put again with other contents, if its texts still fit then. So an edit
that leaves the texts alone is never refused for them. -/
theorem exists_put_of_mem {r r' : Row} (hr : r ∈ b.rows)
    (hfits : Row.Layout.fits r = true → Row.Layout.fits r' = true) : ∃ b', b.put r' = .ok b' := by
  cases b with
  | memory m => exact ⟨_, rfl⟩
  | indexed d => exact h.exists_put (hfits ((Indexed.mem_rows h.1.cells).1 hr).1)

/-- Taking out never fails. It takes out the row under the id, if there is one, and otherwise
nothing changes but that a number is answered. -/
theorem exists_remove (id : SymbolId) :
    ∃ b', b.remove id = .ok ((b.rows.find? (·.id = id)).isSome, b') ∧ b.Removes id b' := by
  cases b with
  | memory m =>
    refine ⟨.memory (m.remove id).2, ?_, ?_, ?_, ?_, ?_⟩
    · exact congrArg (fun existed => Except.ok (existed, _)) (m.remove_fst id)
    · show (m.remove id).2.allocator.position ≠ 0
      rw [m.allocator_remove]
      exact h
    · exact fun _ => m.mem_scan_remove
    · exact congrArg (·.position - 1) (m.allocator_remove id)
    · have hwrites := m.writes_remove id
      rwa [m.remove_fst] at hwrites
  | indexed d =>
    obtain ⟨d', hremove, hsound, hmem, hnext, hwrites⟩ := h.1.remove id
    refine ⟨.indexed d', ?_, ⟨hsound, ?_⟩, hmem, congrArg (·.toNat - 1) hnext, hwrites⟩
    · rw [Backend.remove, hremove]
      rfl
    · rw [hnext]
      exact h.2

/-- Drawing an id touches no row. The rows and the count of writes are the same, whichever kind of
store it is and whether an id was left or not. -/
theorem allocate : b.allocate.2.Sound ∧ b.allocate.2.rows = b.rows ∧
    b.allocate.2.writes = b.writes ∧ b.drawn ≤ b.allocate.2.drawn := by
  cases b with
  | memory m => exact ⟨Nat.succ_ne_zero _, rfl, rfl, Nat.sub_le_sub_right (Nat.le_succ _) 1⟩
  | indexed d =>
    obtain ⟨next, heq, hne, hle⟩ := Indexed.allocate_snd h.2
    show (indexed d.allocate.2).Sound ∧ d.allocate.2.rows = d.rows ∧ d.allocate.2.writes = d.writes ∧
      d.nextId.toNat - 1 ≤ d.allocate.2.nextId.toNat - 1
    rw [heq]
    exact ⟨⟨⟨h.1.cells, h.1.byAddress, h.1.byParent⟩, hne⟩, rfl, rfl,
      Nat.sub_le_sub_right (UInt64.le_iff_toNat_le.1 hle) 1⟩

/-- As long as there are ids, the next one is drawn. Ids are drawn in order from one on, so how many
were drawn says which is the next. -/
theorem allocate_of_lt (hlt : b.drawn + 1 < UInt64.size - 1) :
    ∃ id : SymbolId, b.allocate.1 = .ok id ∧ id.val.toNat = b.drawn + 1 ∧
      b.allocate.2.drawn = b.drawn + 1 := by
  cases b with
  | memory m =>
    have hpos : m.allocator.position ≠ 0 := h
    have hdrawn : (memory m).drawn + 1 = m.allocator.position := Nat.succ_pred_eq_of_ne_zero hpos
    obtain ⟨id, hid, hval⟩ := m.allocate_of_lt hpos (by omega)
    refine ⟨id, ?_, hval.trans hdrawn.symm, hdrawn.symm⟩
    rw [Backend.allocate, hid]
    rfl
  | indexed d =>
    have hne : d.nextId.toNat ≠ 0 := fun heq => h.2 (UInt64.toNat_inj.1 heq)
    have hdrawn : (indexed d).drawn + 1 = d.nextId.toNat := Nat.succ_pred_eq_of_ne_zero hne
    have hnext : (d.nextId + 1).toNat = d.nextId.toNat + 1 := by
      rw [UInt64.toNat_add]
      exact Nat.mod_eq_of_lt (by show _ + 1 < UInt64.size; omega)
    refine ⟨⟨d.nextId, h.2⟩, ?_, hdrawn.symm, ?_⟩
    · rw [Backend.allocate, Indexed.allocate_of_lt h.2 (by omega)]
      rfl
    · rw [Backend.allocate, Indexed.allocate_of_lt h.2 (by omega), hdrawn]
      exact congrArg (· - 1) hnext

/-- An id that is drawn is the next one, unless all are drawn. So an id that was answered is greater
than all that were drawn before. -/
theorem next_of_allocate {id : SymbolId} (hid : b.allocate.1 = .ok id)
    (hlt : b.drawn < UInt64.size - 1) :
    id.val.toNat = b.drawn + 1 ∧ b.allocate.2.drawn = b.drawn + 1 := by
  cases b with
  | memory m =>
    have hpos : m.allocator.position ≠ 0 := h
    have hdrawn : (memory m).drawn + 1 = m.allocator.position := Nat.succ_pred_eq_of_ne_zero hpos
    obtain ⟨id', hid', hval⟩ := m.allocate_of_lt hpos (by omega)
    rw [Backend.allocate, hid'] at hid
    cases hid
    exact ⟨hval.trans hdrawn.symm, hdrawn.symm⟩
  | indexed d =>
    by_cases hnext : (indexed d).drawn + 1 < UInt64.size - 1
    · obtain ⟨id', hid', hval, hdrawn⟩ := h.allocate_of_lt hnext
      cases hid.symm.trans hid'
      exact ⟨hval, hdrawn⟩
    · -- the last word is not drawn
      have hne : d.nextId.toNat ≠ 0 := fun heq => h.2 (UInt64.toNat_inj.1 heq)
      have hbefore : (indexed d).drawn = d.nextId.toNat - 1 := rfl
      rw [Backend.allocate, Indexed.allocate_last (by omega)] at hid
      cases hid

/-- An id that is drawn is the next one, until they run out. -/
theorem id_of_allocate {id : SymbolId} (hid : b.allocate.1 = .ok id)
    (hlt : b.allocate.2.drawn < UInt64.size - 1) :
    id.val.toNat = b.drawn + 1 ∧ b.allocate.2.drawn = b.drawn + 1 :=
  h.next_of_allocate hid (Nat.lt_of_le_of_lt h.allocate.2.2.2 hlt)

end

end Sound

end Backend

end SymbolTable.Store
