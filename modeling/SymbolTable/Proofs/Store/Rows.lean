import Mathlib.Data.List.Nodup
import SymbolTable.Ordered
import SymbolTable.Row

/-!
# Lists of rows by ascending id

What a store keeps is seen as a list of rows in strictly ascending order of their ids. Such a list
is determined by its members (`Ascending.eq_of_mem_iff`), so a store is described by saying which
rows its list has, and the row under an id is the one member with this id
(`Ascending.find?_eq_some_iff`).
-/

namespace SymbolTable

/-- A word has a value in an ordered map exactly if the pair of both is an entry. The entries
ascend, so no word comes twice. The induction is on the entries. -/
theorem Ordered.get?_eq_some_iff {α : Type} {m : Ordered α} {k : UInt64} {v : α} :
    m.get? k = some v ↔ (k, v) ∈ m.entries := by
  have hasc := m.ascending
  unfold Ordered.get?
  generalize m.entries = es at hasc
  induction es with
  | nil => simp
  | cons e es ih =>
    rw [List.pairwise_cons] at hasc
    rw [List.find?_cons]
    by_cases he : e.1 = k
    · have hnot : (k, v) ∉ es := by
        intro hmem
        have hlt := hasc.1 _ hmem
        rw [he] at hlt
        exact UInt64.lt_irrefl _ hlt
      obtain ⟨k', v'⟩ := e
      cases he
      simp [hnot, eq_comm]
    · have hne : (k, v) ≠ e := fun h => he (h ▸ rfl)
      simp [he, hne, ih hasc.2]

namespace Row

/-- Where no row is found under an id, no member has it. -/
theorem id_ne_of_find?_eq_none {rows : List Row} {id : SymbolId}
    (h : rows.find? (·.id = id) = none) {r : Row} (hr : r ∈ rows) : r.id ≠ id := by
  simpa using List.find?_eq_none.1 h r hr

/-- Rows in strictly ascending order of their ids. -/
def Ascending (rows : List Row) : Prop :=
  rows.Pairwise fun a b => a.id.val < b.id.val

namespace Ascending

variable {rows rows' : List Row}

/-- Rows that ascend go on to ascend when some of them are left out, as they are where only those at
an address or in a scope are listed. -/
theorem filter (h : Ascending rows) (p : Row → Bool) : Ascending (rows.filter p) :=
  List.Pairwise.filter p h

/-- No two rows that ascend have the same id. -/
theorem nodup_ids (h : Ascending rows) : (rows.map (·.id)).Nodup := by
  refine List.pairwise_map.2 (List.Pairwise.imp (fun hlt heq => ?_) h)
  rw [heq] at hlt
  exact UInt64.lt_irrefl _ hlt

/-- No row comes twice among those that ascend. -/
theorem nodup (h : Ascending rows) : rows.Nodup :=
  List.Nodup.of_map _ h.nodup_ids

/-- No two members have the same id. -/
theorem eq_of_id_eq (h : Ascending rows) {a b : Row} (ha : a ∈ rows) (hb : b ∈ rows)
    (hid : a.id = b.id) : a = b :=
  List.inj_on_of_nodup_map h.nodup_ids ha hb hid

/-- A permutation of an ascending list that is in order is that list. Both are the one ordered list
of the same rows. So a list may be found in any way, and sorted. -/
theorem eq_of_perm (h : Ascending rows) (hperm : rows'.Perm rows)
    (hle : rows'.Pairwise fun a b => a.id.le b.id = true) : rows' = rows := by
  refine hperm.eq_of_pairwise ?_ hle ?_
  · intro a b ha hb hab hba
    refine h.eq_of_id_eq (hperm.mem_iff.1 ha) hb ?_
    have h1 : a.id.val ≤ b.id.val := of_decide_eq_true hab
    have h2 : b.id.val ≤ a.id.val := of_decide_eq_true hba
    exact SymbolId.ext (UInt64.le_antisymm h1 h2)
  · exact List.Pairwise.imp (fun hlt => decide_eq_true (UInt64.le_of_lt hlt)) h

/-- Ascending lists with the same members are equal. -/
theorem eq_of_mem_iff (h : Ascending rows) (h' : Ascending rows')
    (hmem : ∀ r, r ∈ rows' ↔ r ∈ rows) : rows' = rows := by
  refine h.eq_of_perm ((List.perm_ext_iff_of_nodup h'.nodup h.nodup).2 hmem) ?_
  exact List.Pairwise.imp (fun hlt => decide_eq_true (UInt64.le_of_lt hlt)) h'

/-- The row under an id is the member with this id. No other member has this id, since ids ascend
strictly. -/
theorem find?_eq_some_iff (h : Ascending rows) {id : SymbolId} {r : Row} :
    rows.find? (·.id = id) = some r ↔ r ∈ rows ∧ r.id = id := by
  constructor
  · intro hfind
    exact ⟨List.mem_of_find?_eq_some hfind, by simpa using List.find?_some hfind⟩
  · rintro ⟨hmem, rfl⟩
    cases hfind : rows.find? (·.id = r.id) with
    | none => exact absurd rfl (id_ne_of_find?_eq_none hfind hmem)
    | some x =>
      have hid : x.id = r.id := by simpa using List.find?_some hfind
      rw [h.eq_of_id_eq (List.mem_of_find?_eq_some hfind) hmem hid]

end Ascending

end Row

end SymbolTable
