import SymbolTable.Proofs.Store.Backend
import SymbolTable.Table

/-!
# Views of a table

A table is seen through the rows that its store keeps (`Table.rows`, `Table.row?`) and through its
handles by their numbers (`Table.handle`). Each change of the store or of a handle is described by
what it does to these views.
-/

namespace SymbolTable

/-! ## Handles in order -/

/-- What a handle says of itself agrees with its row. Without a row it is that of the symbol derived
from its address, unless it is marked deleted. -/
structure Handle.InOrder (s : Handle) : Prop where
  live : ∀ r, s.row = some r → s.deleted = false
  key : ∀ r, s.row = some r → s.key = .stored r.id
  address : ∀ r, s.row = some r → s.address = r.address
  tag : ∀ r, s.row = some r → r.tag = s.kind.tag
  derived : s.deleted = false → s.row = none → s.key = .derived s.address ∧ s.kind = .label

namespace Handle

variable {s : Handle}

/-- A symbol is derived if its handle is live and has no row. A handle that is marked deleted counts
as neither. -/
theorem isDerived_iff : s.isDerived = true ↔ s.row = none ∧ s.deleted = false := by
  simp [isDerived]

/-- A symbol with a row is stored, not derived. -/
theorem isDerived_of_row {r : Row} (hrow : s.row = some r) : s.isDerived = false := by
  rw [isDerived, hrow]
  rfl

/-- A handle has the id of its key, which is there for stored symbols alone. -/
theorem id?_eq_some_iff {id : SymbolId} : s.id? = some id ↔ s.key = .stored id := by
  rw [id?]
  cases s.key <;> simp [Key.id?]

/-- A derived symbol has no id. -/
theorem id?_of_derived {a : Address} (hkey : s.key = .derived a) : s.id? = none := by
  rw [id?, hkey]
  rfl

/-- The parent that a handle tells is that of its copy of the row. So it may be out of date as long
as the handle is not refreshed. -/
theorem parent_of_row {r : Row} (hrow : s.row = some r) : s.parent = r.parent := by
  rw [parent, hrow]
  rfl

/-- A symbol without a row lies in the global scope. -/
theorem parent_of_rowless (hrow : s.row = none) : s.parent = .global := by
  rw [parent, hrow]
  rfl

/-- A symbol with a parent has a row. A derived symbol lies in the global scope. -/
theorem exists_row_of_parent {id : SymbolId} (hparent : s.parent = .of id) :
    ∃ r, s.row = some r ∧ r.parent = .of id := by
  cases hrow : s.row with
  | none =>
    rw [parent_of_rowless hrow] at hparent
    cases hparent
  | some r => exact ⟨r, rfl, parent_of_row hrow ▸ hparent⟩

/-- A symbol with a name of its own has a row. A derived symbol is named by its address, which
counts as a default name. -/
theorem exists_row_of_named (hnamed : s.provenance ≠ .default) : ∃ r, s.row = some r ∧ r.provenance ≠ .default := by
  cases hrow : s.row with
  | none =>
    rw [provenance, hrow] at hnamed
    exact absurd rfl hnamed
  | some r =>
    rw [provenance, hrow] at hnamed
    exact ⟨r, rfl, hnamed⟩

/-- A handle with a row. -/
theorem InOrder.of_row {r : Row} (hrow : s.row = some r) (hlive : s.deleted = false)
    (hkey : s.key = .stored r.id) (haddress : s.address = r.address) (htag : r.tag = s.kind.tag) :
    s.InOrder := by
  constructor <;> simp [hrow, hlive, hkey, haddress, htag]

/-- A handle without a row. -/
theorem InOrder.of_rowless (hrow : s.row = none)
    (hderived : s.deleted = false → s.key = .derived s.address ∧ s.kind = .label) : s.InOrder := by
  refine ⟨?_, ?_, ?_, ?_, fun hlive _ => hderived hlive⟩ <;> simp [hrow]

/-- A handle without a row that is marked deleted. -/
theorem InOrder.of_deleted (hrow : s.row = none) (hdeleted : s.deleted = true) : s.InOrder := by
  refine .of_rowless hrow ?_
  simp [hdeleted]

/-- The handle of a symbol that was just derived from an address is in order. -/
theorem inOrder_derived (a : Address) : (derived a).InOrder :=
  .of_rowless rfl fun _ => ⟨rfl, rfl⟩

/-- Whatever a handle was like, it is in order once it is marked deleted, for then it has no row to
agree with. -/
theorem inOrder_invalidated : s.invalidated.InOrder :=
  .of_deleted rfl rfl

/-- The handle of a row, which stands for a kind. It has the key and the address of the row, was
read at the given count and is not marked in any way. -/
theorem eq_of_ofRow {r : Row} {n : UInt64} (h : ofRow r n = .ok s) :
    ∃ k, r.kind? = some k ∧ s = ⟨k, .stored r.id, some r, r.address, n, false, false⟩ := by
  unfold ofRow at h
  split at h
  · rename_i k hk
    cases h
    exact ⟨k, hk, rfl⟩
  · cases h

/-- The handle that is made for a row is in order. It is made only if the row stands for a kind. -/
theorem inOrder_ofRow {r : Row} {n : UInt64} (h : ofRow r n = .ok s) : s.InOrder := by
  obtain ⟨k, hk, rfl⟩ := eq_of_ofRow h
  exact .of_row rfl rfl rfl rfl (Kind.ofTag?_eq_some_iff.1 hk)

namespace InOrder

variable (h : s.InOrder)

include h

/-- Another version of the row is put into the handle. It has the same id and the same kind, so the
key and the kind of the handle still fit. -/
theorem refreshed {r row : Row} (hrow : s.row = some r) (hid : row.id = r.id)
    (htag : row.tag = r.tag) (n : UInt64) : (s.refreshed row n).InOrder := by
  have hkey : s.key = .stored row.id := by rw [hid, h.key r hrow]
  have htag' : row.tag = s.kind.tag := by rw [htag, h.tag r hrow]
  exact .of_row rfl (h.live r hrow) hkey rfl htag'

/-- A stored symbol that is not marked deleted has a row. A handle without a row is derived or
deleted, and the key of a derived one is an address. -/
theorem exists_row {id : SymbolId} (hkey : s.key = .stored id) (hlive : s.deleted = false) :
    ∃ r, s.row = some r ∧ r.id = id := by
  cases hrow : s.row with
  | none =>
    rw [(h.derived hlive hrow).1] at hkey
    cases hkey
  | some r =>
    rw [h.key r hrow] at hkey
    exact ⟨r, rfl, Key.stored.inj hkey⟩

/-- A symbol that is not marked deleted and has the key of a derived one is derived, from where it
lies. If it had a row, its key would be that of a stored symbol, as handles are in order. -/
theorem derived_of_key {a : Address} (hkey : s.key = .derived a) (hlive : s.deleted = false) :
    s.isDerived = true ∧ s.address = a := by
  have hrow : s.row = none := by
    cases hrow : s.row with
    | none => rfl
    | some r => cases hkey.symm.trans (h.key r hrow)
  exact ⟨isDerived_iff.2 ⟨hrow, hlive⟩, Key.derived.inj ((h.derived hlive hrow).1.symm.trans hkey)⟩

omit h in
/-- A derived symbol gets a row of its kind, with which its handle is in order again. This is what
happens when it is named or moved into a scope. -/
theorem promoted {row : Row} (hlive : s.deleted = false) (htag : row.tag = s.kind.tag)
    (n : UInt64) : (s.promoted row n).InOrder :=
  .of_row rfl hlive rfl rfl htag

/-- Whether a deletion is going on is of no interest to what a handle says of its row. -/
theorem marked (deleting : Bool) : { s with deleting := deleting }.InOrder :=
  ⟨h.live, h.key, h.address, h.tag, h.derived⟩

/-- A derived symbol is taken to another address. Its key changes with the address, so that both
still agree. -/
theorem relocated (hlive : s.deleted = false) (hrow : s.row = none) (a : Address) :
    (s.relocated a).InOrder :=
  .of_rowless hrow fun _ => ⟨rfl, (h.derived hlive hrow).2⟩

end InOrder

end Handle

namespace Table

variable {t : Table}

/-- The rows of the store, by ascending id. -/
def rows (t : Table) : List Row :=
  t.store.backend.rows

/-- The row with this id. -/
def row? (t : Table) (id : SymbolId) : Option Row :=
  t.rows.find? (·.id = id)

/-- How many ids have been drawn. -/
def drawn (t : Table) : Nat :=
  t.store.backend.drawn

/-- How many writes there were. -/
def writes (t : Table) : Nat :=
  t.store.writes

/-- What keeps the rows is in order, and so are the handles. -/
structure Sound (t : Table) : Prop where
  backend : t.store.backend.Sound
  inOrder : ∀ h, (t.handle h).InOrder

/-- The table with something else that keeps the rows. -/
def withBackend (t : Table) (b : Store.Backend) : Table :=
  { t with store := t.store.withBackend b }

/-! ## Rows -/

/-- The row under an id is the one among all rows that has this id. -/
theorem row?_eq_some_iff (h : t.store.backend.Sound) {id : SymbolId} {r : Row} :
    t.row? id = some r ↔ r ∈ t.rows ∧ r.id = id :=
  h.ascending_rows.find?_eq_some_iff

/-- Every row is found under its own id. -/
theorem row?_id (h : t.store.backend.Sound) {r : Row} (hr : r ∈ t.rows) : t.row? r.id = some r :=
  (row?_eq_some_iff h).2 ⟨hr, rfl⟩

/-- There is no row under an id if no row has it. -/
theorem row?_eq_none_iff {id : SymbolId} : t.row? id = none ↔ ∀ r ∈ t.rows, r.id ≠ id := by
  simp [row?]

/-- A row that is found is one of the rows. -/
theorem mem_of_row? {id : SymbolId} {r : Row} (h : t.row? id = some r) : r ∈ t.rows :=
  List.mem_of_find?_eq_some h

/-- A row that is found under an id has this id. For this the store need not be in order. -/
theorem id_of_row? {id : SymbolId} {r : Row} (h : t.row? id = some r) : r.id = id := by
  simpa using List.find?_some h

/-- Tables whose stores keep the same rows have the same row under an id. -/
theorem row?_congr {t' : Table} (h : t'.rows = t.rows) (id : SymbolId) : t'.row? id = t.row? id := by
  rw [row?, row?, h]

/-- A row that is put is found under its id, and all others stay under theirs. That the backend is
sound lets the row be looked up in it, where it comes once under its id. -/
theorem row?_puts {b : Store.Backend} {r : Row} (h : t.store.backend.Sound)
    (hputs : t.store.backend.Puts r b) (id : SymbolId) :
    (t.withBackend b).row? id = if id = r.id then some r else t.row? id := by
  refine Option.ext fun x => ?_
  rw [row?_eq_some_iff (t := t.withBackend b) hputs.sound,
    show (t.withBackend b).rows = b.rows from rfl, hputs.mem_rows]
  by_cases hid : id = r.id
  · subst hid
    rw [if_pos rfl, Option.some.injEq]
    constructor
    · rintro ⟨hx | hx, hxid⟩
      · exact hx.symm
      · exact absurd hxid hx.2
    · rintro rfl
      exact ⟨.inl rfl, rfl⟩
  · rw [if_neg hid, row?_eq_some_iff h]
    constructor
    · rintro ⟨rfl | hx, hxid⟩
      · exact absurd hxid.symm hid
      · exact ⟨hx.1, hxid⟩
    · rintro ⟨hx, rfl⟩
      exact ⟨.inr ⟨hx, hid⟩, rfl⟩

/-- The row that was put is the row under its id. -/
theorem row?_self_of_puts {b₀ b : Store.Backend} {r : Row} (hputs : b₀.Puts r b) :
    (t.withBackend b).row? r.id = some r :=
  (row?_eq_some_iff (t := t.withBackend b) hputs.sound).2 ⟨(hputs.mem_rows r).2 (.inl rfl), rfl⟩

/-- A row that is taken out is no longer found, and all others stay. Whether there was one does not
matter. It is shown by the members of the list of rows, since each id has one row at most. -/
theorem row?_removes {b : Store.Backend} {id₀ : SymbolId} (h : t.store.backend.Sound)
    (hremoves : t.store.backend.Removes id₀ b) (id : SymbolId) :
    (t.withBackend b).row? id = if id = id₀ then none else t.row? id := by
  refine Option.ext fun x => ?_
  rw [row?_eq_some_iff (t := t.withBackend b) hremoves.sound,
    show (t.withBackend b).rows = b.rows from rfl, hremoves.mem_rows]
  by_cases hid : id = id₀
  · subst hid
    rw [if_pos rfl]
    constructor
    · rintro ⟨hx, hxid⟩
      exact absurd hxid hx.2
    · intro hx
      cases hx
  · rw [if_neg hid, row?_eq_some_iff h]
    constructor
    · rintro ⟨hx, hxid⟩
      exact ⟨hx.1, hxid⟩
    · rintro ⟨hx, rfl⟩
      exact ⟨⟨hx, hid⟩, rfl⟩

/-! ## Handles -/

/-- Beyond the handles of the table there is none. -/
theorem handle_of_le {h : HandleId} (hle : t.handles.length ≤ h) : t.handle h = Handle.absent := by
  rw [handle, List.getD_eq_getElem?_getD, List.getElem?_eq_none hle]
  rfl

/-- A handle that says anything at all is one of the table. -/
theorem lt_of_ne_absent {h : HandleId} (hne : t.handle h ≠ Handle.absent) :
    h < t.handles.length := by
  by_contra hlt
  exact hne (handle_of_le (Nat.le_of_not_lt hlt))

/-- A handle that is not marked deleted is one of the table. What stands for handles that are none
is marked deleted. -/
theorem lt_of_live {h : HandleId} (hlive : (t.handle h).deleted = false) :
    h < t.handles.length := by
  refine lt_of_ne_absent ?_
  intro heq
  rw [heq] at hlive
  cases hlive

/-- A handle with a row is one of the table. What stands for handles that are none has no row. -/
theorem lt_of_row {h : HandleId} {r : Row} (hrow : (t.handle h).row = some r) :
    h < t.handles.length := by
  refine lt_of_ne_absent ?_
  intro heq
  rw [heq] at hrow
  cases hrow

/-- A handle of a stored symbol is one of the table. What stands for handles that are none has the
key of a derived symbol. -/
theorem lt_of_key {h : HandleId} {id : SymbolId} (hkey : (t.handle h).key = .stored id) :
    h < t.handles.length := by
  refine lt_of_ne_absent ?_
  intro heq
  rw [heq] at hkey
  cases hkey

/-- One handle is changed and the others are as they were. It has to be one of the table, for others
are not changed. -/
theorem handle_updateHandle (t : Table) {h : HandleId} (hlt : h < t.handles.length)
    (f : Handle → Handle) (k : HandleId) :
    (t.updateHandle h f).handle k = if k = h then f (t.handle h) else t.handle k := by
  unfold updateHandle handle
  by_cases hk : k = h
  · subst hk
    simp [hlt]
  · simp [hk, List.getElem?_set_ne (Ne.symm hk)]

/-- The handle that is changed is what the change makes of it. -/
theorem handle_updateHandle_self (t : Table) {h : HandleId} (hlt : h < t.handles.length)
    (f : Handle → Handle) : (t.updateHandle h f).handle h = f (t.handle h) := by
  rw [handle_updateHandle t hlt, if_pos rfl]

/-- A handle that is not the one that is changed stays as it is, wherever it is. -/
theorem handle_updateHandle_ne (t : Table) {h k : HandleId} (hk : k ≠ h) (f : Handle → Handle) :
    (t.updateHandle h f).handle k = t.handle k := by
  unfold updateHandle handle
  simp [List.getElem?_set_ne (Ne.symm hk)]

/-- A new handle comes after those that there are, and none of them changes. So the number of
handles is the number of the next one, and what is known of the others goes on to be known. -/
theorem handle_adopt (t : Table) (key : Key) (s : Handle) (k : HandleId) :
    (t.adopt key s).handle k = if k = t.handles.length then s else t.handle k := by
  unfold adopt handle
  by_cases hk : k = t.handles.length
  · subst hk
    simp
  · rcases Nat.lt_or_gt_of_ne hk with hlt | hgt
    · simp [hk, List.getElem?_append_left hlt]
    · have hnew : (t.handles ++ [s]).length ≤ k := by
        rw [List.length_append]
        exact hgt
      rw [if_neg hk, List.getD_eq_getElem?_getD, List.getD_eq_getElem?_getD,
        List.getElem?_eq_none hnew, List.getElem?_eq_none (Nat.le_of_lt hgt)]

/-- A handle is changed or left alone. This is for steps that change a handle only if it is one of
the table: which of the two it is need not be told. -/
theorem handle_updateHandle_or (t : Table) (h : HandleId) (f : Handle → Handle) (k : HandleId) :
    (t.updateHandle h f).handle k = t.handle k ∨
      k = h ∧ (t.updateHandle h f).handle k = f (t.handle k) := by
  by_cases hk : k = h
  · subst hk
    by_cases hlt : k < t.handles.length
    · exact .inr ⟨rfl, handle_updateHandle_self t hlt f⟩
    · refine .inl ?_
      have hsame : t.handles.set k (f (t.handle k)) = t.handles :=
        List.set_eq_of_length_le (Nat.le_of_not_lt hlt)
      simp only [updateHandle, handle] at hsame ⊢
      rw [hsame]
  · exact .inl (handle_updateHandle_ne t hk f)

/-- A handle is marked deleted, which makes no difference beyond the handles of the table. There the
handle stands for none, and to mark it deleted would not make it another one, as it counts as
deleted already. -/
theorem handle_invalidate (t : Table) (h k : HandleId) :
    (t.updateHandle h (·.invalidated)).handle k =
      if k = h then (t.handle h).invalidated else t.handle k := by
  by_cases hlt : h < t.handles.length
  · exact handle_updateHandle t hlt (·.invalidated) k
  · by_cases hk : k = h
    · subst hk
      have habsent := handle_of_le (Nat.le_of_not_lt hlt)
      rw [if_pos rfl]
      rcases t.handle_updateHandle_or k (·.invalidated) k with heq | ⟨-, heq⟩
      · rw [heq, habsent]
        rfl
      · exact heq
    · rw [if_neg hk, handle_updateHandle_ne t hk (·.invalidated)]

/-- What a change of a handle leaves as it was is the same for all handles. So each field is dealt
with once for all changes of others. -/
theorem map_updateHandle {β : Type} (g : Handle → β) {h k : HandleId} {f : Handle → Handle}
    (hf : g (f (t.handle h)) = g (t.handle h)) :
    g ((t.updateHandle h f).handle k) = g (t.handle k) := by
  rcases t.handle_updateHandle_or h f k with heq | ⟨rfl, heq⟩
  · rw [heq]
  · rw [heq, hf]

/-- The mark of a handle is taken away. If there is no such handle, none is marked. -/
theorem deleting_unmark (t : Table) (h : HandleId) :
    ((t.updateHandle h fun s => { s with deleting := false }).handle h).deleting = false := by
  rcases Nat.lt_or_ge h t.handles.length with hlt | hge
  · rw [handle_updateHandle t hlt, if_pos rfl]
  · rw [handle_of_le]
    · rfl
    · exact Nat.le_trans (Nat.le_of_eq List.length_set) hge

/-- A mark that is taken away leaves no trace. The handle may be none of the table, and then nothing
is changed in the first place. -/
theorem unmark_mark (t : Table) {h : HandleId} (hidle : (t.handle h).deleting = false) :
    (t.updateHandle h fun s => { s with deleting := true }).updateHandle h
      (fun s => { s with deleting := false }) = t := by
  have hback : { t.handle h with deleting := false } = t.handle h := by rw [← hidle]
  rcases Nat.lt_or_ge h t.handles.length with hlt | hge
  · have hself : t.handles.set h (t.handle h) = t.handles := by
      rw [handle, List.getD_eq_getElem?_getD, List.getElem?_eq_getElem hlt, Option.getD_some,
        List.set_getElem_self]
    rw [updateHandle, handle_updateHandle_self t hlt, hback]
    show { t with handles := (t.handles.set h _).set h (t.handle h) } = t
    rw [List.set_set, hself]
  · have hset (x : Handle) : t.handles.set h x = t.handles := List.set_eq_of_length_le hge
    simp only [updateHandle, hset]

/-! What else changes a handle changes it in the same way. -/

/-- What keeps the rows is of no interest to the handles. This and the next ones let `simp` see
through the parts of a table that handles do not depend on. -/
@[simp] theorem handle_withBackend (t : Table) (b : Store.Backend) (k : HandleId) :
    (t.withBackend b).handle k = t.handle k := rfl

@[simp] theorem handle_updateHandle_withBackend (t : Table) (b : Store.Backend) (h : HandleId)
    (f : Handle → Handle) (k : HandleId) :
    ((t.withBackend b).updateHandle h f).handle k = (t.updateHandle h f).handle k := rfl

@[simp] theorem handle_abandon (t : Table) (h : HandleId) (key : Key) (k : HandleId) :
    (t.abandon h key).handle k = (t.updateHandle h (·.invalidated)).handle k := rfl

@[simp] theorem handle_release (t : Table) (h : HandleId) (id : SymbolId) (k : HandleId) :
    (t.release h id).handle k = (t.updateHandle h (·.invalidated)).handle k := rfl

@[simp] theorem handle_embody (t : Table) (h : HandleId) (row : Row) (k : HandleId) :
    (t.embody h row).handle k =
      (t.updateHandle h (·.promoted row t.store.modificationCount)).handle k := rfl

@[simp] theorem handle_withPool (t : Table) (pool : Dict Key HandleId) (k : HandleId) :
    ({ t with pool := pool } : Table).handle k = t.handle k := rfl

@[simp] theorem length_updateHandle (t : Table) (h : HandleId) (f : Handle → Handle) :
    (t.updateHandle h f).handles.length = t.handles.length :=
  List.length_set

@[simp] theorem length_adopt (t : Table) (key : Key) (s : Handle) :
    (t.adopt key s).handles.length = t.handles.length + 1 :=
  List.length_append

/-- A property of handles survives the change of one. It has to be shown for the new value of this
one only. -/
theorem forall_updateHandle {P : Handle → Prop} (hall : ∀ k, P (t.handle k)) {h : HandleId}
    {f : Handle → Handle} (hf : P (f (t.handle h))) (k : HandleId) :
    P ((t.updateHandle h f).handle k) := by
  rcases t.handle_updateHandle_or h f k with heq | ⟨rfl, heq⟩
  · rw [heq]
    exact hall k
  · rw [heq]
    exact hf

/-- A property of handles survives a new one. It has to hold of the new one. -/
theorem forall_adopt {P : Handle → Prop} (hall : ∀ k, P (t.handle k)) (key : Key) {s : Handle}
    (hs : P s) (k : HandleId) : P ((t.adopt key s).handle k) := by
  rw [handle_adopt]
  split
  · exact hs
  · exact hall k

/-! ## Dropping a derived symbol -/

/-- To drop the symbol derived from an address does nothing to the store. -/
@[simp] theorem store_dropDerived (t : Table) (a : Address) :
    (t.dropDerived a).store = t.store := by
  unfold dropDerived
  split <;> rfl

/-- No handle goes away with a symbol that is dropped. Its handle is marked deleted and stays where
it is. -/
@[simp] theorem length_dropDerived (t : Table) (a : Address) :
    (t.dropDerived a).handles.length = t.handles.length := by
  unfold dropDerived
  split
  · exact length_updateHandle ..
  · rfl

/-- The handle pooled for the address is marked deleted, the others are left alone. Handles are
never taken away, so a symbol that was derived from the address answers from now on that it is
gone. -/
theorem handle_dropDerived (t : Table) (a : Address) (k : HandleId) :
    (t.dropDerived a).handle k =
      if t.pool.get? (.derived a) = some k then (t.handle k).invalidated else t.handle k := by
  unfold dropDerived
  split
  · rename_i h hh
    rw [handle_abandon, handle_invalidate, hh]
    split
    · rename_i hk
      rw [hk, if_pos rfl]
    · rename_i hk
      rw [if_neg]
      rintro ⟨⟩
      exact hk rfl
  · rename_i hnone
    rw [hnone, if_neg (Option.some_ne_none k).symm]

/-- Only the handle pooled for the address is marked deleted. If none is pooled there, nothing
changes. -/
theorem pooled_of_dropDerived {a : Address} {k : HandleId}
    (h : ((t.dropDerived a).handle k).deleted ≠ (t.handle k).deleted) :
    t.pool.get? (.derived a) = some k := by
  by_contra hpool
  rw [handle_dropDerived, if_neg hpool] at h
  exact h rfl

/-- A property that every handle has that is marked deleted survives. The handle that is dropped, if
there is one, is such a handle, and the others stay as they are. -/
theorem forall_dropDerived {P : Handle → Prop} (hall : ∀ k, P (t.handle k))
    (hinvalidated : ∀ s : Handle, P s.invalidated) (a : Address) (k : HandleId) :
    P ((t.dropDerived a).handle k) := by
  rw [handle_dropDerived]
  split
  · exact hinvalidated _
  · exact hall k

/-- After the symbol derived from an address was dropped, nothing is pooled under its key, and all
other keys are as before. -/
theorem pool_dropDerived (t : Table) (a : Address) (key : Key) :
    (t.dropDerived a).pool.get? key = if key = .derived a then none else t.pool.get? key := by
  unfold dropDerived
  split
  · rename_i h hh
    show (t.pool.evict _ h).get? key = _
    rw [Dict.evict, if_pos hh, Dict.get?_erase]
  · rename_i hnone
    by_cases hkey : key = .derived a
    · rw [if_pos hkey, hkey, hnone]
    · rw [if_neg hkey]

end Table

end SymbolTable
