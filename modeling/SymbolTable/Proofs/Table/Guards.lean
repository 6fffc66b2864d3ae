import SymbolTable.Proofs.Action.Course
import SymbolTable.Proofs.Table.Exact

/-!
# What is left alone during a deletion

While a deletion is going on, its handle is marked. Whoever acts on the table in the meantime finds
the mark and passes the symbol over, so its row stays until the deletion itself takes it out, and a
row that was taken out does not come back (`Table.Guards`). The deletion gives the same guarantee
for all handles but its own, and for all of them when it has taken the mark away (`Guards.unmark`).
-/

namespace SymbolTable.Table

variable {t t₁ t₂ t' : Table} {may : Deed → Prop} {on on' : HandleId → Prop} {h : HandleId}

/-- From one table to the other, deletions begin and end as they nest, the symbols of some marked
handles keep their rows, and no row comes back. -/
structure Guards (on : HandleId → Prop) (t t' : Table) : Prop where
  marks : ∀ k, (t'.handle k).deleting = (t.handle k).deleting
  keys : ∀ k id, (t.handle k).key = .stored id → (t'.handle k).key = .stored id
  kept : ∀ k id r, on k → (t.handle k).deleting = true → (t.handle k).key = .stored id →
    t.row? id = some r → ∃ r', t'.row? id = some r'
  drawn : t.drawn ≤ t'.drawn
  gone : ∀ id, id.val.toNat ≤ t.drawn → t.row? id = none → t'.row? id = none

namespace Guards

/-- If nothing happens, everything is guarded. It is where a chain of stretches begins. -/
theorem refl (t : Table) : t.Guards on t where
  marks _ := rfl
  keys _ _ hkey := hkey
  kept _ _ r _ _ _ hrow := ⟨r, hrow⟩
  drawn := Nat.le_refl _
  gone _ _ hnone := hnone

/-- What is guarded over two stretches is guarded over both. A handle keeps its key over the first
one, so that its row can be followed over the second. -/
theorem trans (h : t.Guards on t₁) (h' : t₁.Guards on t₂) : t.Guards on t₂ where
  marks k := (h'.marks k).trans (h.marks k)
  keys k id hkey := h'.keys k id (h.keys k id hkey)
  kept k id r hk hmarked hkey hrow := by
    obtain ⟨x, hx⟩ := h.kept k id r hk hmarked hkey hrow
    exact h'.kept k id x hk ((h.marks k).trans hmarked) (h.keys k id hkey) hx
  drawn := Nat.le_trans h.drawn h'.drawn
  gone id hle hnone := h'.gone id (Nat.le_trans hle h.drawn) (h.gone id hle hnone)

theorem mono (h : t.Guards on t') (hon : ∀ k, on' k → on k) : t.Guards on' t' :=
  { h with kept := fun k id r hk => h.kept k id r (hon k hk) }

/-- Neither the rows nor the marks change. Then no premise on what is left of the ids is needed, and
the steps may relocate derived symbols. -/
theorem of_rows_eq (hpath : Path may t t') (hremove : ¬ may .remove) (hs : t.Sound)
    (hrows : t'.rows = t.rows) : t.Guards on t' where
  marks := hpath.deleting_eq hremove
  keys _ _ hkey := hpath.key_stored hs hkey
  kept _ id r _ _ _ hrow := ⟨r, (row?_congr hrows id).trans hrow⟩
  drawn := hpath.drawn_le hs
  gone id _ hnone := (row?_congr hrows id).trans hnone

/-- Steps that take no row out guard all handles, as long as ids remain. An id that was drawn and is
free does not come back as long as there are others to be drawn. -/
theorem of_path (hpath : Path may t t') (hremove : ¬ may .remove) (hrelocate : ¬ may .relocate)
    (hintrude : ¬ may .intrude) (hs : t.Sound) (hlt : may .write → t'.drawn < UInt64.size - 1)
    (he : t.Exact) : t.Guards on t' where
  marks := hpath.deleting_eq hremove
  keys _ _ hkey := hpath.key_stored hs hkey
  kept _ _ _ _ _ _ hrow :=
    (hpath.exists_row? hremove hintrude hrelocate hs hlt he hrow).imp fun _ hx => hx.1
  drawn := hpath.drawn_le hs
  gone _ hle hnone := hpath.row?_eq_none hintrude hrelocate hs hlt he hle hnone

/-- The row of a handle is taken out, which is stored. No other handle that is marked has this row.
The marks of the others are as they were, and their rows are other rows. -/
theorem released {r : Row}
    (hreleased : ∃ b, t.store.backend.Removes r.id b ∧ ((t.withBackend b).release h r.id).Beside t')
    (hs : t.Sound) (he : t.Exact) (hkey : (t.handle h).key = .stored r.id) (hrow : t.row? r.id ≠ none) :
    t.Guards (· ≠ h) t' := by
  obtain ⟨b, hremoves, hbeside⟩ := hreleased
  have hpath : Path (Eq .remove) t t' := .tail (.single (.takeOut rfl h hkey hremoves)) (.aside hbeside)
  have hrow? (id : SymbolId) : t'.row? id = if id = r.id then none else t.row? id := by
    rw [row?_congr (t := t.withBackend b) hbeside.rows_eq]
    exact row?_removes hs.backend hremoves id
  refine ⟨fun k => ?_, fun _ _ hk => hpath.key_stored hs hk, fun k id x hne _ hk hx => ?_,
    hpath.drawn_le hs, fun id _ hnone => ?_⟩
  · rw [hbeside.handle, handle_release, handle_updateHandle_withBackend,
      map_updateHandle Handle.deleting rfl]
  · refine ⟨x, ?_⟩
    rw [hrow?, if_neg, hx]
    rintro rfl
    exact hne (he.eq_of_stored hkey hk hrow)
  · rw [hrow?, hnone, ite_self]

/-- When the row of one handle is taken out, all others are guarded. -/
theorem departs {r : Row} (hdeparts : t.Departs h r t') (hs : t.Sound) (he : t.Exact)
    (hkey : (t.handle h).key = .stored r.id) (hrow : t.row? r.id ≠ none) : t.Guards (· ≠ h) t' :=
  .released hdeparts.exists_release hs he hkey hrow

/-- What the other symbols are guaranteed while the handle is marked, all of them are once the mark
is taken away. -/
theorem unmark (hidle : (t.handle h).deleting = false)
    (hg : (t.updateHandle h fun s => { s with deleting := true }).Guards (· ≠ h) t') :
    t.Guards on (t'.updateHandle h fun s => { s with deleting := false }) where
  marks k := by
    rcases eq_or_ne k h with rfl | hne
    · rw [deleting_unmark, hidle]
    · rw [handle_updateHandle_ne t' hne, hg.marks, handle_updateHandle_ne t hne]
  keys k id hkey := by
    rw [map_updateHandle Handle.key rfl]
    exact hg.keys k id ((map_updateHandle Handle.key rfl).trans hkey)
  kept k id r _ hmarked hkey hrow := by
    have hne : k ≠ h := by
      rintro rfl
      cases hidle.symm.trans hmarked
    refine hg.kept k id r hne ?_ ((map_updateHandle Handle.key rfl).trans hkey) hrow
    rw [handle_updateHandle_ne t hne, hmarked]
  drawn := hg.drawn
  gone id hle hnone := hg.gone id hle hnone

end Guards

end SymbolTable.Table
