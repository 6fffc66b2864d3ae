import SymbolTable.Proofs.Store.Rows
import SymbolTable.Store.Memory

/-!
# What a store in memory keeps

The rows of a store in memory are its listing, which ascends (`Memory.ascending_scan`). A row that
is put takes the place of the row with its id and of no other (`Memory.mem_scan_put`).
-/

namespace SymbolTable.Store.Memory

variable (m : Memory)

/-- A scan shows the rows that are kept, each under its own id. This is how the rows of a store in
memory are seen from outside. -/
theorem mem_scan {r : Row} : r ∈ m.scan ↔ (r.id.val, r) ∈ m.rows.entries := by
  constructor
  · intro h
    obtain ⟨e, he, rfl⟩ := List.mem_map.1 h
    rwa [← m.keyed e he]
  · intro h
    exact List.mem_map.2 ⟨_, h, rfl⟩

/-- The listing ascends. -/
theorem ascending_scan : Row.Ascending m.scan := by
  refine List.pairwise_map.2 (List.Pairwise.imp_of_mem ?_ m.rows.ascending)
  intro e e' he he' hlt
  rwa [m.keyed e he, m.keyed e' he'] at hlt

/-- The row under an id is the one that a scan shows with this id. A row that would be kept under
another id than its own is shown by neither. -/
theorem get_eq_some_iff {id : SymbolId} {r : Row} : m.get id = some r ↔ r ∈ m.scan ∧ r.id = id := by
  rw [mem_scan, get, Ordered.get?_eq_some_iff]
  constructor
  · intro h
    obtain rfl : r.id = id := SymbolId.ext (m.keyed _ h).symm
    exact ⟨h, rfl⟩
  · rintro ⟨h, rfl⟩
    exact h

/-- To look up an id comes to the same as to search a scan for it, which is what all stores have in
common. -/
theorem get_eq (id : SymbolId) : m.get id = m.scan.find? (·.id = id) := by
  ext r
  rw [get_eq_some_iff, m.ascending_scan.find?_eq_some_iff]

/-- A row that is put takes the place of the row with its id. There is one at most, since rows are
kept under their ids. -/
theorem mem_scan_put {r x : Row} : x ∈ (m.put r).scan ↔ x = r ∨ x ∈ m.scan ∧ x.id ≠ r.id := by
  rw [mem_scan, mem_scan, ← Ordered.get?_eq_some_iff, ← Ordered.get?_eq_some_iff, put,
    Ordered.get?_insert]
  by_cases h : x.id = r.id
  · simp [h, eq_comm]
  · have hv : x.id.val ≠ r.id.val := fun he => h (SymbolId.ext he)
    have hne : x ≠ r := fun he => h (he ▸ rfl)
    simp [h, hv, hne]

/-- Taking out says whether there was a row. -/
theorem remove_fst (id : SymbolId) : (m.remove id).1 = (m.scan.find? (·.id = id)).isSome := by
  rw [← get_eq]
  unfold remove
  split <;> simp_all

/-- What is left when an id is taken out are the rows with other ids. If there was no row under the
id, all are left. -/
theorem mem_scan_remove {id : SymbolId} {x : Row} :
    x ∈ (m.remove id).2.scan ↔ x ∈ m.scan ∧ x.id ≠ id := by
  unfold remove
  split
  · rw [mem_scan, mem_scan, ← Ordered.get?_eq_some_iff, ← Ordered.get?_eq_some_iff,
      Ordered.get?_erase]
    by_cases h : x.id = id
    · simp [h]
    · have hv : x.id.val ≠ id.val := fun he => h (SymbolId.ext he)
      simp [h, hv]
  · rename_i hnone
    constructor
    · intro hx
      refine ⟨hx, fun hid => hnone ?_⟩
      rw [m.get_eq_some_iff.2 ⟨hx, hid⟩]
      rfl
    · intro hx
      exact hx.1

/-- Only taking out a row counts as a write. -/
theorem writes_remove (id : SymbolId) :
    (m.remove id).2.writes = m.writes + (m.remove id).1.toNat := by
  unfold remove
  split <;> rfl

/-- Ids are not taken back with the rows, so one that was drawn is not drawn again after its row is
gone. -/
theorem allocator_remove (id : SymbolId) : (m.remove id).2.allocator = m.allocator := by
  unfold remove
  split <;> rfl

/-- The next word is an id as long as it is a word. Positions are counted beyond the words, so the
bound is what keeps them apart. -/
theorem allocate_of_lt (h0 : m.allocator.position ≠ 0) (h : m.allocator.position < UInt64.size) :
    ∃ id : SymbolId, m.allocate.1 = some id ∧ id.val.toNat = m.allocator.position := by
  have hword : (UInt64.ofNat m.allocator.position).toNat = m.allocator.position :=
    UInt64.toNat_ofNat_of_lt' h
  have hne : UInt64.ofNat m.allocator.position ≠ 0 := fun heq => h0 (by rw [← hword, heq]; rfl)
  exact ⟨⟨_, hne⟩, SymbolId.ofRaw?_eq_some_iff.2 rfl, hword⟩

/-- The number that is kept up to date with every write is that of the rows. -/
theorem size_eq : m.size = m.scan.length :=
  (List.length_map _).symm

end SymbolTable.Store.Memory
