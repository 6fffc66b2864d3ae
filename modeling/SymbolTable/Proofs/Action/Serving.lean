import SymbolTable.Proofs.Action.Finding
import SymbolTable.Proofs.Action.Removal

/-!
# Removals that are answered

Where the store works, the row of a symbol is taken out for certain: its name can be shown, the next
symbol at its address is found, and the listener is told (`answers_removeRow`). What the listener
does then is left open.
-/

namespace SymbolTable

open Table (Path)

variable {σ : Type} {t t' : Table} {may : Deed → Prop} {notify : Listener σ} {h : HandleId} {id : SymbolId}

/-- Calls of the store and of the table are answered. -/
structure Table.Serving (t : Table) : Prop where
  works : t.store.Works
  opened : t.closed = false

/-- A table that serves goes on to do so along steps after which the same outages are planned. It is
open as before, and to have no outages is the rest of it. -/
theorem Table.Serving.of_outages (hserving : t.Serving) (hpath : Path may t t')
    (houtages : t'.store.outages = t.store.outages) : t'.Serving := by
  refine ⟨fun now call id? => ?_, hpath.sameFrame.closed.trans hserving.opened⟩
  rw [houtages]
  exact hserving.works now call id?

namespace Action

variable (hb : t.store.backend.Sound) (hworks : t.store.Works)

include hb hworks

/-- Where the store works, the name that a row shows is told, by induction on the depth that is
left. A step ends the walk or asks for the row of the lender, and this question is answered. -/
theorem answers_shownName (depth : Nat) (visited : List SymbolId) (r : Row) :
    Answers t (shownName depth visited r : Action σ _) fun _ t' => t' = t := by
  have hderived : Answers t (look (·.derivedName r) : Action σ _) fun _ t' => t' = t :=
    Ends.look ⟨_, rfl, rfl⟩
  induction depth generalizing visited r with
  | zero => exact hderived
  | succ depth ih =>
    unfold shownName
    split
    · exact .pure rfl
    · refine .look_bind ?_
      split
      · exact hderived
      · split
        · exact hderived
        · refine Ends.seq (.getRow hb (.ok ?_) fun _ hfails => absurd hfails hworks.not_mayFail)
          split
          · exact hderived
          · exact ih _ _ (Ends.look ⟨_, rfl, rfl⟩)

/-- Where the store works, the name that is displayed is told. -/
theorem answers_displayName (r : Row) :
    Answers t (displayName r : Action σ _) fun _ t' => t' = t :=
  .look_bind (answers_shownName hb hworks _ _ r)

/-- Where the store works, the row of a symbol is taken out, and it is answered that there was one.
Its handle is released in the same step. -/
theorem answers_takeOut {r : Row} (hr : t.row? id = some r) :
    Answers t (takeOut h id : Action σ _) fun existed t' => existed = true ∧
      ∃ b, t.store.backend.Removes id b ∧ t' = (t.withBackend b).release h id := by
  refine Ends.seq (.takeRow hb (fun b hremoves => .ok (.change_bind ?_))
    fun _ hfails => absurd hfails hworks.not_mayFail)
  rw [hr]
  exact Answers.pure ⟨rfl, b, hremoves, rfl⟩

/-- Where the store works, a designation is passed on. Who comes next is read from the rows at the
address, and this question is answered. -/
theorem answers_passPrimary (a : Address) (id : SymbolId) :
    Answers t (passPrimary a id : Action σ _) fun _ _ => True := by
  refine .look_bind ?_
  split
  · exact Ends.seq (Ends.seq (.rowsAt hb (.ok (.look (.ok (Ends.change ⟨(), rfl, trivial⟩))))
      fun _ hfails => absurd hfails hworks.not_mayFail))
  · exact .pure trivial

/-- The row of a symbol is taken out and its designation is passed on, and then the listener is
told. What holds then is premised for any name and for all surroundings, since the listener is
called with them. -/
theorem answers_removeRow {r x : Row} (hr : t.row? r.id = some x) {P : Bool → Table → Prop}
    (htold : ∀ t₁ name (s : Situated σ), t.Removal h r t₁ → s.table = t₁.bury (Departure.mk r name) →
      P true (notify (Departure.mk r name).event s).table) :
    Answers t (removeRow notify h r) P := by
  refine (answers_displayName hb hworks r).bind ?_
  rintro name t rfl
  refine (answers_takeOut hb hworks hr).bind ?_
  rintro _ _ ⟨rfl, b, hremoves, rfl⟩
  have hworks' : ((t.withBackend b).release h r.id).store.Works := hworks
  refine ((answers_passPrimary (t := (t.withBackend b).release h r.id) hremoves.sound hworks' _ _).and
    (ends_passPrimary h hremoves)).bind ?_
  rintro _ t₁ ⟨-, hremoval, -⟩
  exact Ends.change_bind (Ends.seq (.emit fun s hs => Answers.pure (htold t₁ name s hremoval hs)))

end Action

end SymbolTable
