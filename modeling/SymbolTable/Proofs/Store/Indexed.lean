import SymbolTable.Proofs.Row.Layout
import SymbolTable.Proofs.Store.Rows
import SymbolTable.Store.Indexed

/-!
# What a store of bytes keeps

A store of bytes is `Sound` if its cells are the bytes of rows under their own ids and its indexes
hold exactly the pairs that these rows give rise to, each once. The empty store is sound and each
write keeps a store sound. A sound store answers every question by the list of its rows
(`Indexed.rows`), whatever the indexes are good for: in particular what the index by address mixes
up is told apart again.
-/

namespace SymbolTable.Store

namespace Index

variable {κ : Type}

/-- What is not in an index yet can be put in its place without coming twice. Its place is behind
all smaller ids, and the induction goes along the entries until it is reached. -/
theorem nodup_place {e : κ × UInt64} {es : List (κ × UInt64)} (h : es.Nodup) (he : e ∉ es) :
    (place e es).Nodup := by
  induction es with
  | nil => exact List.nodup_singleton e
  | cons x xs ih =>
    rw [List.nodup_cons] at h
    unfold place
    split
    · exact List.nodup_cons.2 ⟨he, List.nodup_cons.2 h⟩
    · refine List.nodup_cons.2 ⟨fun hx => ?_, ih h.2 fun hmem => he (List.mem_cons_of_mem _ hmem)⟩
      rcases mem_place.1 hx with rfl | hx
      · exact he (List.mem_cons_self ..)
      · exact h.1 hx

variable [DecidableEq κ] {i : Index κ}

/-- A row is entered in the index, which keeps every entry once: an entry that is there already is
not made again. -/
theorem nodup_add (h : i.entries.Nodup) (k : κ) (id : UInt64) : (i.add k id).entries.Nodup := by
  unfold add
  split
  · exact h
  · rename_i hnot
    exact nodup_place h hnot

/-- A row is struck from the index, which leaves no entry twice. -/
theorem nodup_remove (h : i.entries.Nodup) (k : κ) (id : UInt64) :
    (i.remove k id).entries.Nodup :=
  h.filter _

/-- The ids under a key are listed once each. An entry is the pair of the key and the id, and no
entry is there twice. -/
theorem nodup_ids (h : i.entries.Nodup) (k : κ) : (i.ids k).Nodup := by
  refine (h.filter _).map_on ?_
  intro a ha b hb hab
  have hka : a.1 = k := of_decide_eq_true (List.mem_filter.1 ha).2
  have hkb : b.1 = k := of_decide_eq_true (List.mem_filter.1 hb).2
  exact Prod.ext (hka.trans hkb.symm) hab

/-! ## Indexes in step with rows -/

/-- An index has exactly the pairs of the keys and ids of some rows, once each. -/
structure Tracks (i : Index κ) (key : Row → κ) (rows : List Row) : Prop where
  nodup : i.entries.Nodup
  mem_iff : ∀ k id, (k, id) ∈ i.entries ↔ ∃ r ∈ rows, key r = k ∧ r.id.val = id

namespace Tracks

variable {key : Row → κ} {rows rows' : List Row}

/-- Where an index keeps track of rows, it finds under a key just the ids of those that have this
key. -/
theorem mem_ids_iff (h : i.Tracks key rows) {k : κ} {id : UInt64} :
    id ∈ i.ids k ↔ ∃ r ∈ rows, key r = k ∧ r.id.val = id := by
  rw [mem_ids, h.mem_iff]

omit [DecidableEq κ] in
/-- An index without pairs is in step with no rows. -/
theorem nil : (⟨[]⟩ : Index κ).Tracks key [] := by
  refine ⟨.nil, fun k id => ?_⟩
  simp

omit [DecidableEq κ] in
/-- An index that keeps track of rows does so whatever order they are listed in. -/
theorem congr (h : i.Tracks key rows) (hrows : ∀ x, x ∈ rows' ↔ x ∈ rows) : i.Tracks key rows' :=
  ⟨h.nodup, fun k id => by simp only [h.mem_iff, hrows]⟩

/-- A row that is gone is no longer tracked. Rows have different ids, so no other row could need the
entry that is taken away. -/
theorem remove (h : i.Tracks key rows) (hasc : Row.Ascending rows) {old : Row} (hold : old ∈ rows)
    (hrows : ∀ x, x ∈ rows' ↔ x ∈ rows ∧ x.id ≠ old.id) :
    (i.remove (key old) old.id.val).Tracks key rows' := by
  refine ⟨nodup_remove h.nodup _ _, fun k id => ?_⟩
  rw [mem_remove, h.mem_iff]
  constructor
  · rintro ⟨⟨r, hr, rfl, rfl⟩, hne⟩
    refine ⟨r, (hrows r).2 ⟨hr, fun hid => hne ?_⟩, rfl, rfl⟩
    rw [hasc.eq_of_id_eq hr hold hid]
  · rintro ⟨r, hr, rfl, rfl⟩
    obtain ⟨hmem, hid⟩ := (hrows r).1 hr
    exact ⟨⟨r, hmem, rfl, rfl⟩, fun heq => hid (SymbolId.ext (Prod.ext_iff.1 heq).2)⟩

/-- A new row is tracked when its pair is added. The rows that were tracked go on to be, for an
entry is only ever added here. If the row was there already, its entry is not made twice. -/
theorem add (h : i.Tracks key rows) {r : Row} (hrows : ∀ x, x ∈ rows' ↔ x = r ∨ x ∈ rows) :
    (i.add (key r) r.id.val).Tracks key rows' := by
  refine ⟨nodup_add h.nodup _ _, fun k id => ?_⟩
  rw [mem_add, h.mem_iff]
  constructor
  · rintro (heq | ⟨x, hx, hk, hid⟩)
    · cases heq
      exact ⟨r, (hrows r).2 (.inl rfl), rfl, rfl⟩
    · exact ⟨x, (hrows x).2 (.inr hx), hk, hid⟩
  · rintro ⟨x, hx, rfl, rfl⟩
    rcases (hrows x).1 hx with rfl | hx
    · exact .inl rfl
    · exact .inr ⟨x, hx, rfl, rfl⟩

end Tracks

end Index

namespace Indexed

/-! ## The rows of a store -/

/-- The rows that can be read, by ascending word. -/
def rows (d : Indexed) : List Row :=
  d.cells.values.filterMap fun bytes => (read bytes).toOption

/-- The bytes under a word are those of a row with this id. -/
def IsRow (e : UInt64 × List UInt8) : Prop :=
  ∃ r, Row.Layout.fits r = true ∧ e = (r.id.val, Row.Layout.encode r)

/-- The bytes of rows under their ids, and indexes in step with them. -/
structure Sound (d : Indexed) : Prop where
  cells : ∀ e ∈ d.cells.entries, IsRow e
  byAddress : d.byAddress.Tracks (addressKey ·.address) d.rows
  byParent : d.byParent.Tracks (·.parent.raw) d.rows

/-- What is written for a row that fits reads back as this row. For others nothing is claimed, and
none of them gets into the store. -/
theorem read_encode {r : Row} (h : Row.Layout.fits r = true) :
    read (Row.Layout.encode r) = .ok r := by
  rw [read, Row.Layout.decode_encode h]
  rfl

section
variable {d : Indexed} (h : ∀ e ∈ d.cells.entries, IsRow e)

include h

/-- The rows of the store are those whose text stands in the cell of their id. A row whose texts do
not fit is not one of them, which is why the condition stands on the right. -/
theorem mem_rows {r : Row} :
    r ∈ d.rows ↔ Row.Layout.fits r = true ∧ (r.id.val, Row.Layout.encode r) ∈ d.cells.entries := by
  rw [rows, List.mem_filterMap]
  constructor
  · rintro ⟨bytes, hbytes, hread⟩
    obtain ⟨e, he, rfl⟩ := List.mem_map.1 hbytes
    obtain ⟨x, hfits, rfl⟩ := h e he
    rw [read_encode hfits] at hread
    cases hread
    exact ⟨hfits, he⟩
  · rintro ⟨hfits, hmem⟩
    refine ⟨_, List.mem_map.2 ⟨_, hmem, rfl⟩, ?_⟩
    rw [read_encode hfits]
    rfl

/-- The cells are the bytes of the rows, and nothing else. So the cells could be made anew from the
rows. The induction is on the list of cells, of which each reads back as one row. -/
theorem entries_eq : d.cells.entries = d.rows.map fun r => (r.id.val, Row.Layout.encode r) := by
  unfold rows Ordered.values
  generalize d.cells.entries = es at h
  induction es with
  | nil => rfl
  | cons e es ih =>
    obtain ⟨r, hfits, rfl⟩ := h e (List.mem_cons_self ..)
    have htail := ih fun x hx => h x (List.mem_cons_of_mem _ hx)
    rw [List.map_cons, List.filterMap_cons, read_encode hfits]
    exact congrArg _ htail

/-- The cells lie in the order of the ids, so the rows that are read from them ascend. -/
theorem ascending_rows : Row.Ascending d.rows := by
  have hasc := d.cells.ascending
  rwa [entries_eq h, List.pairwise_map] at hasc

/-- The cell under the id of a row reads back as this row, without a fault. It was written by
encoding a row whose texts fit. -/
theorem readAt_of_mem {r : Row} (hr : r ∈ d.rows) : d.readAt r.id.val = .ok (some r) := by
  obtain ⟨hfits, hmem⟩ := (mem_rows h).1 hr
  rw [readAt, Ordered.get?_eq_some_iff.2 hmem]
  show some <$> read (Row.Layout.encode r) = _
  rw [read_encode hfits]
  rfl

/-- A row is read as the one with its id. No cell fails to be read, since all of them were written
by the store. That the rows are looked up by `find?` lets stores of both kinds be compared. -/
theorem get_eq (id : SymbolId) : d.get id = .ok (d.rows.find? (·.id = id)) := by
  cases hfind : d.rows.find? (·.id = id) with
  | some r =>
    obtain ⟨hmem, rfl⟩ := (ascending_rows h).find?_eq_some_iff.1 hfind
    exact readAt_of_mem h hmem
  | none =>
    have hcell : d.cells.get? id.val = none := by
      cases hget : d.cells.get? id.val with
      | none => rfl
      | some bytes =>
        have hmem := Ordered.get?_eq_some_iff.1 hget
        obtain ⟨r, hfits, heq⟩ := h _ hmem
        have hid : r.id = id := SymbolId.ext (Prod.ext_iff.1 heq).1.symm
        rw [heq] at hmem
        exact absurd hid (Row.id_ne_of_find?_eq_none hfind ((mem_rows h).2 ⟨hfits, hmem⟩))
    rw [get, readAt, hcell]

/-- All rows are listed. A scan reads every cell and would stop at the first that cannot be read,
but there is no such cell. The induction is on the rows. -/
theorem scan_eq : d.scan = .ok d.rows := by
  have hfits : ∀ r ∈ d.rows, Row.Layout.fits r = true := fun r hr => ((mem_rows h).1 hr).1
  rw [scan, Ordered.values, entries_eq h, List.map_map]
  generalize d.rows = rs at hfits
  induction rs with
  | nil => rfl
  | cons r rs ih =>
    have htail := ih fun x hx => hfits x (List.mem_cons_of_mem _ hx)
    rw [List.map_cons, List.mapM_cons, htail]
    show (read (Row.Layout.encode r) >>= _) = _
    rw [read_encode (hfits r (List.mem_cons_self ..))]
    rfl

/-- There are as many cells as rows: every cell reads back as one row, and no two as the same. -/
theorem size_eq : d.size = d.rows.length := by
  rw [size, Ordered.size, entries_eq h, List.length_map]

/-- Words of rows are read as these rows, in the same order. What an index finds are words, and each
has to be that of a row for the cells to be read. The induction is on the words. -/
theorem readEach_eq {ks : List UInt64} (hks : ∀ k ∈ ks, ∃ r ∈ d.rows, r.id.val = k) :
    ∃ rs, d.readEach ks = .ok rs ∧ rs.map (·.id.val) = ks ∧ ∀ r ∈ rs, r ∈ d.rows := by
  induction ks with
  | nil =>
    refine ⟨[], rfl, rfl, ?_⟩
    intro r hr
    cases hr
  | cons k ks ih =>
    obtain ⟨r, hr, rfl⟩ := hks k (List.mem_cons_self ..)
    obtain ⟨rs, hread, hmap, hrs⟩ := ih fun x hx => hks x (List.mem_cons_of_mem _ hx)
    refine ⟨r :: rs, ?_, by rw [List.map_cons, hmap], ?_⟩
    · rw [readEach, readAt_of_mem h hr, hread]
      rfl
    · intro x hx
      rcases List.mem_cons.1 hx with rfl | hx
      · exact hr
      · exact hrs x hx

/-- What an index finds are the rows with the key, whatever the order of its pairs. Two lists of
rows with the same ids in the same order are the same, so what is read for the words is what is
picked from all rows. -/
theorem load_eq {κ : Type} [DecidableEq κ] {i : Index κ} {key : Row → κ}
    (hi : i.Tracks key d.rows) (k : κ) :
    d.load (i.ids k) = .ok (d.rows.filter (key · = k)) := by
  have hids : ∀ x ∈ i.ids k, ∃ r ∈ d.rows, r.id.val = x := fun x hx => by
    obtain ⟨r, hr, -, hid⟩ := hi.mem_ids_iff.1 hx
    exact ⟨r, hr, hid⟩
  obtain ⟨rs, hread, hmap, hrs⟩ := readEach_eq h hids
  have hasc := ascending_rows h
  have hmem : ∀ r, r ∈ rs ↔ r ∈ d.rows.filter (key · = k) := by
    intro r
    rw [List.mem_filter, decide_eq_true_iff]
    have hids : r.id.val ∈ rs.map (·.id.val) ↔ ∃ x ∈ d.rows, key x = k ∧ x.id.val = r.id.val := by
      rw [hmap, hi.mem_ids_iff]
    constructor
    · intro hr
      obtain ⟨x, hx, hk, hid⟩ := hids.1 (List.mem_map_of_mem hr)
      cases hasc.eq_of_id_eq hx (hrs r hr) (SymbolId.ext hid)
      exact ⟨hx, hk⟩
    · rintro ⟨hr, hk⟩
      obtain ⟨x, hx, hid⟩ := List.mem_map.1 (hids.2 ⟨r, hr, hk, rfl⟩)
      cases hasc.eq_of_id_eq (hrs x hx) hr (SymbolId.ext hid)
      exact hx
  have hnodup : rs.Nodup := by
    refine List.Nodup.of_map (·.id.val) ?_
    rw [hmap]
    exact Index.nodup_ids hi.nodup k
  have hperm := (List.perm_ext_iff_of_nodup hnodup (hasc.filter _).nodup).2 hmem
  rw [load, hread]
  refine congrArg Except.ok ((hasc.filter _).eq_of_perm ((List.mergeSort_perm ..).trans hperm) ?_)
  refine List.pairwise_mergeSort ?_ ?_ rs
  · intro a b c hab hbc
    exact decide_eq_true (UInt64.le_trans (of_decide_eq_true hab) (of_decide_eq_true hbc))
  · intro a b
    simpa [SymbolId.le] using UInt64.le_total a.id.val b.id.val

end

/-! ## Writes -/

section
variable (d : Indexed) (old? : Option Row)

/-- To take an old row out of the indexes leaves the cells alone, whether there is an old row or
not. -/
@[simp] theorem cells_unindexOld : (d.unindexOld old?).cells = d.cells := by cases old? <;> rfl

/-- To take an old row out of the indexes draws no id. -/
@[simp] theorem nextId_unindexOld : (d.unindexOld old?).nextId = d.nextId := by cases old? <;> rfl

/-- To take an old row out of the indexes is not counted as a write. The write that follows is. -/
@[simp] theorem writes_unindexOld : (d.unindexOld old?).writes = d.writes := by cases old? <;> rfl

end

/-- A row whose texts do not fit is refused. It is looked at before anything else is done, so
nothing is written then. -/
theorem fits_of_put {d d' : Indexed} {r : Row} (h : d.put r = .ok d') :
    Row.Layout.fits r = true := by
  cases hfits : Row.Layout.fits r with
  | true => rfl
  | false =>
    rw [put, hfits] at h
    cases h

/-- The next word is an id unless it is the last one. The one behind it is then the next. -/
theorem allocate_of_lt {d : Indexed} (h0 : d.nextId ≠ 0) (h : d.nextId.toNat < UInt64.size - 1) :
    d.allocate = (some ⟨d.nextId, h0⟩, { d with nextId := d.nextId + 1 }) := by
  have hid : SymbolId.ofRaw? d.nextId = some ⟨d.nextId, h0⟩ := SymbolId.ofRaw?_eq_some_iff.2 rfl
  have hlast : d.nextId ≠ 0xffffffffffffffff := fun heq => by
    rw [heq] at h
    exact absurd h (by decide)
  rw [allocate, hid]
  exact if_neg hlast

/-- The last word is not drawn. It stands for no ids being left, and the store stays as it is. -/
theorem allocate_last {d : Indexed} (h : ¬ d.nextId.toNat < UInt64.size - 1) : d.allocate = (none, d) := by
  have hlast : d.nextId = 0xffffffffffffffff := by
    have hword : d.nextId.toNat < UInt64.size := d.nextId.toNat_lt
    exact UInt64.toNat_inj.1 (by show _ = UInt64.size - 1; omega)
  rw [allocate]
  split
  · rfl
  · rw [if_pos hlast]

/-- Drawing an id changes at most the next word, which does not become zero. When ids have run out,
it stays where it is, so the store goes on to refuse. -/
theorem allocate_snd {d : Indexed} (h0 : d.nextId ≠ 0) :
    ∃ next, d.allocate.2 = { d with nextId := next } ∧ next ≠ 0 ∧ d.nextId ≤ next := by
  by_cases h : d.nextId.toNat < UInt64.size - 1
  · have hnext : (d.nextId + 1).toNat = d.nextId.toNat + 1 := by
      rw [UInt64.toNat_add]
      exact Nat.mod_eq_of_lt (by show _ + 1 < UInt64.size; omega)
    refine ⟨d.nextId + 1, congrArg Prod.snd (allocate_of_lt h0 h), fun heq => ?_, ?_⟩
    · rw [heq] at hnext
      exact absurd hnext (by simp)
    · exact UInt64.le_iff_toNat_le.2 (by omega)
  · exact ⟨d.nextId, congrArg Prod.snd (allocate_last h), h0, UInt64.le_refl _⟩

/-- An empty store is sound, for there is nothing that its indexes would have to find. -/
theorem sound_empty : empty.Sound where
  cells e he := by cases he
  byAddress := .nil
  byParent := .nil

namespace Sound

variable {d : Indexed} (h : d.Sound)

include h

/-- A row that stood under an id is taken out of the indexes. There may have been none under the id,
and then the indexes stay as they are. Otherwise its entries go from both of them. -/
theorem unindexOld (id : SymbolId) {rows : List Row}
    (hrows : ∀ x, x ∈ rows ↔ x ∈ d.rows ∧ x.id ≠ id) :
    (d.unindexOld (d.rows.find? (·.id = id))).byAddress.Tracks (addressKey ·.address) rows ∧
      (d.unindexOld (d.rows.find? (·.id = id))).byParent.Tracks (·.parent.raw) rows := by
  have hasc := ascending_rows h.cells
  cases hfind : d.rows.find? (·.id = id) with
  | some old =>
    obtain ⟨hold, rfl⟩ := hasc.find?_eq_some_iff.1 hfind
    exact ⟨h.byAddress.remove hasc hold hrows, h.byParent.remove hasc hold hrows⟩
  | none =>
    have hsame : ∀ x, x ∈ rows ↔ x ∈ d.rows := by
      intro x
      rw [hrows]
      constructor
      · intro hx
        exact hx.1
      · intro hx
        exact ⟨hx, Row.id_ne_of_find?_eq_none hfind hx⟩
    exact ⟨h.byAddress.congr hsame, h.byParent.congr hsame⟩

/-- A row whose texts fit takes the place of the row with its id. The row that had the id goes out
of the indexes first, and then the new one is entered, so no index points to a row that is gone.
Writes are counted once. -/
theorem put {r : Row} (hfits : Row.Layout.fits r = true) :
    ∃ d', d.put r = .ok d' ∧ d'.Sound ∧ (∀ x, x ∈ d'.rows ↔ x = r ∨ x ∈ d.rows ∧ x.id ≠ r.id) ∧
      d'.nextId = d.nextId ∧ d'.writes = d.writes + 1 := by
  have hothers : ∀ x, x ∈ d.rows.filter (·.id ≠ r.id) ↔ x ∈ d.rows ∧ x.id ≠ r.id := by simp
  obtain ⟨haddr, hparent⟩ := h.unindexOld r.id hothers
  let d₁ := d.unindexOld (d.rows.find? (·.id = r.id))
  let d' : Indexed :=
    { cells := d₁.cells.insert r.id.val (Row.Layout.encode r)
      byAddress := d₁.byAddress.add (addressKey r.address) r.id.val
      byParent := d₁.byParent.add r.parent.raw r.id.val
      nextId := d₁.nextId
      writes := d₁.writes + 1 }
  have hsame : d₁.cells = d.cells := cells_unindexOld ..
  have hput : d.put r = .ok d' := by
    rw [Indexed.put, hfits, get_eq h.cells]
    rfl
  have hcells : ∀ e ∈ d'.cells.entries, IsRow e := by
    intro e he
    rcases Ordered.mem_place he with rfl | he
    · exact ⟨r, hfits, rfl⟩
    · rw [hsame] at he
      exact h.cells e he
  have hmem : ∀ x, x ∈ d'.rows ↔ x = r ∨ x ∈ d.rows ∧ x.id ≠ r.id := by
    intro x
    rw [mem_rows hcells, mem_rows h.cells, ← Ordered.get?_eq_some_iff, ← Ordered.get?_eq_some_iff,
      Ordered.get?_insert, hsame]
    by_cases hid : x.id = r.id
    · simp only [hid, if_true, Option.some.injEq]
      refine ⟨fun hx => .inl ?_, fun hx => ?_⟩
      · have := read_encode hx.1
        rw [← hx.2, read_encode hfits] at this
        exact (Except.ok.inj this).symm
      · rcases hx with rfl | hx
        · exact ⟨hfits, rfl⟩
        · exact absurd rfl hx.2
    · have hne : x ≠ r := fun heq => hid (heq ▸ rfl)
      have hval : x.id.val ≠ r.id.val := fun heq => hid (SymbolId.ext heq)
      simp [hid, hne, hval]
  refine ⟨d', hput, ⟨hcells, haddr.add fun x => ?_, hparent.add fun x => ?_⟩, hmem,
    nextId_unindexOld .., congrArg (· + 1) (writes_unindexOld ..)⟩
  · rw [hmem, List.mem_filter, decide_eq_true_iff]
  · rw [hmem, List.mem_filter, decide_eq_true_iff]

/-- Taking out never fails, and leaves the rows with other ids. It says whether there was a row, and
only then is it counted as a write. No id is drawn or given back. -/
theorem remove (id : SymbolId) :
    ∃ d', d.remove id = .ok ((d.rows.find? (·.id = id)).isSome, d') ∧ d'.Sound ∧
      (∀ x, x ∈ d'.rows ↔ x ∈ d.rows ∧ x.id ≠ id) ∧ d'.nextId = d.nextId ∧
      d'.writes = d.writes + (d.rows.find? (·.id = id)).isSome.toNat := by
  have hasc := ascending_rows h.cells
  cases hfind : d.rows.find? (·.id = id) with
  | none =>
    refine ⟨d, ?_, h, fun x => ⟨fun hx => ?_, fun hx => hx.1⟩, rfl, rfl⟩
    · rw [Indexed.remove, get_eq h.cells, hfind]
      rfl
    · exact ⟨hx, Row.id_ne_of_find?_eq_none hfind hx⟩
  | some old =>
    obtain ⟨hold, rfl⟩ := hasc.find?_eq_some_iff.1 hfind
    let d' : Indexed :=
      { d.unindex old with cells := d.cells.erase old.id.val, writes := d.writes + 1 }
    have hcells : ∀ e ∈ d'.cells.entries, IsRow e := fun e he =>
      h.cells e (List.mem_filter.1 he).1
    have hmem : ∀ x, x ∈ d'.rows ↔ x ∈ d.rows ∧ x.id ≠ old.id := by
      intro x
      rw [mem_rows hcells, mem_rows h.cells, ← Ordered.get?_eq_some_iff,
        ← Ordered.get?_eq_some_iff, Ordered.get?_erase]
      by_cases hid : x.id = old.id
      · simp [hid]
      · have hval : x.id.val ≠ old.id.val := fun heq => hid (SymbolId.ext heq)
        simp [hid, hval]
    refine ⟨d', ?_, ⟨hcells, h.byAddress.remove hasc hold hmem, h.byParent.remove hasc hold hmem⟩,
      hmem, rfl, rfl⟩
    rw [Indexed.remove, get_eq h.cells, hfind]
    rfl

end Sound

end Indexed

end SymbolTable.Store
