import SymbolTable.Action.Removal
import SymbolTable.Proofs.Action.Editing

/-!
# The course of a deletion

A deletion marks the handle, deletes what is in the symbol, takes the row out and takes the mark
away again. In between, a listener may act on the table, and then the handle may already be gone;
but it is still the handle of the same id (`Path.key_stored`), so the row that is taken out is that
of its symbol. Between the row and its designation nobody acts (`ends_removeRow`).

Whatever the listener does on a course, deletions of other symbols included, a deletion stays on it
(`follows_deleteWithin`), if the course that it takes between the marks ends on it (`Course.Nests`).
-/

namespace SymbolTable.Action

variable {σ : Type} {t t' : Table} {c : Course} {notify : Listener σ}

/-- To ask who is next at an address only reads. -/
theorem reads_successorAt (a : Address) : Reads (successorAt a : Action σ _) :=
  .bind (reads_rowsAt a) fun _ => .look _

/-- To delete a member follows a course if the deletion does. A member that is gone, or is being
deleted, is passed over. -/
theorem follows_clearMember {delete : HandleId → Action σ Bool}
    (hdelete : ∀ h, Follows c (delete h)) (id : SymbolId) :
    Follows c (clearMember delete id) := by
  refine .bind (follows_lookup id) fun child? => ?_
  split
  · exact .pure _
  · refine .bind (.look _) fun deleting => ?_
    split
    · exact .pure _
    · exact .map (hdelete _)

/-- To clear a scope follows a course if the deletions do. The list of its members is made at the
beginning. -/
theorem follows_clearScope {delete : HandleId → Action σ Bool} (hdelete : ∀ h, Follows c (delete h))
    (scope : Scope) : Follows c (clearScope delete scope) :=
  .bind (.of_reads (.askStore _)) fun rows => .forM (fun _ => follows_clearMember hdelete _) rows

/-- Once the row of a symbol is taken out, its designation is passed on, or the store fails. If the
symbol was not designated, nothing is done. If it was and the store does not say who is next, it
stays designated. -/
theorem ends_passPrimary (h : HandleId) {r : Row} {b : Store.Backend}
    (hremoves : t.store.backend.Removes r.id b) :
    Ends ((t.withBackend b).release h r.id) (passPrimary r.address r.id : Action σ _)
      fun answer t' => t.Removal h r t' ∧
        ∀ fault, answer = .error fault → ∃ cause, t.store.MayFail .rowsAt none cause := by
  refine .look_bind ?_
  split
  · rename_i hprimary
    refine .seq (.seq (.rowsAt hremoves.sound (.ok (.look (.ok (.change ?_)))) fun fault hfails => ?_))
    · exact ⟨.passed hremoves hprimary, nofun⟩
    · exact ⟨.unanswered hremoves hfails, fun _ _ => ⟨fault, hfails⟩⟩
  · rename_i hother
    exact .pure ⟨.undesignated hremoves hother, nofun⟩

/-- The row of a symbol is taken out and its designation is passed on, and then the listener is
told. There are three cases for a caller: nothing has happened, the row is out but nobody was told,
or everything was done and the listener is about to be told. -/
theorem ends_removeRow (ht : t.Sound) {h : HandleId} {r : Row} {Q : Table → Prop} (hkept : Q t)
    (hunnoted : ∀ t₁ fault, t.Removal h r t₁ → t.store.MayFail .rowsAt none fault → Q t₁)
    (htold : ∀ t₁ name (s : Situated σ), t.Removal h r t₁ → s.table = t₁.bury (Departure.mk r name) →
      Q (notify (Departure.mk r name).event s).table) :
    Ends t (removeRow notify h r) fun _ t' => Q t' := by
  refine (reads_displayName r).ends_bind (fun name => ?_) fun _ => hkept
  refine .seq (.seq (.takeRow ht.backend (fun b hremoves => .ok ?_) fun _ _ => hkept))
  refine .change_bind (.pure (.ok (.bind (ends_passPrimary h hremoves) ?_ ?_)))
  · rintro _ t₁ ⟨hremoval, -⟩
    exact .change_bind (.seq (.emit fun s hs => .ok (.pure (htold t₁ name s hremoval hs))))
  · rintro fault t₁ ⟨hremoval, hcause⟩
    obtain ⟨cause, hfails⟩ := hcause fault rfl
    exact hunnoted t₁ cause hremoval hfails

section
variable {inner : HandleId → Course} (hc : c.Nests inner)
  -- no other change is told in a deletion
  (hremoved : ∀ (e : Event) (s : Situated σ), s.table.Sound → e.change.sort = .removed →
    c.rel (s.table.logged e) (notify e s).table)

include hc hremoved

/-- Whatever happens while what lies in a symbol is deleted, the row that is taken out then is that
of its symbol. -/
theorem ends_rel_removeWith {delete : HandleId → Action σ Bool} (hdelete : ∀ h, Follows c (delete h))
    (ht : t.Sound) {h : HandleId} (hready : t.IsReady h) (hdeleting : (t.handle h).deleting = true) :
    Ends t (removeWith notify delete h) fun _ t' => (inner h).rel t t' := by
  refine .look_bind ?_
  split
  · exact .pure .refl
  · rename_i r hrow
    have hkey : (t.handle h).key = .stored r.id := (ht.inOrder h).key r hrow
    have hremove : ∀ t₁, c.rel t t₁ → Ends t₁ (removeRow notify h r) fun _ t' => (inner h).rel t t' := by
      intro t₁ hrel
      have hkey₁ := hrel.path.key_stored ht hkey
      refine ends_removeRow (hrel.sound ht) (hc.weaken h hrel)
        (fun t₂ _ hremoval hfails => hc.departs ht hready hdeleting hrow hrel hkey₁ (.unnoted hremoval hfails)) ?_
      intro t₂ name s hremoval hs
      have hrel₂ := hc.departs ht hready hdeleting hrow hrel hkey₁ (.noted hremoval name)
      have hs₂ : s.table.Sound := by
        rw [hs]
        exact ⟨(hrel₂.sound ht).backend, (hrel₂.sound ht).inOrder⟩
      have hheeds := hremoved (Departure.mk r name).event s hs₂ rfl
      rw [hs] at hheeds
      exact hrel₂.trans (hc.weaken h hheeds)
    dsimp only
    split
    · exact .bind (follows_clearScope hdelete (.of r.id) t ht) (fun _ t₁ hrel => hremove t₁ hrel)
        fun _ _ hrel => hc.weaken h hrel
    · exact hremove t .refl

/-- Between the marks on its handle, a deletion follows the course for this stretch. The premise
says that the mark was set, unless the symbol was gone. -/
theorem ends_rel_deleteMarked {delete : HandleId → Action σ Bool} (hdelete : ∀ h, Follows c (delete h))
    (ht : t.Sound) {h : HandleId} (hmarked : (t.handle h).deleted = false → (t.handle h).deleting = true) :
    Ends t (deleteMarked notify delete h) fun _ t' => (inner h).rel t t' := by
  refine .attempt_bind (ends_refresh ht h) fun answer t₁ hr => ?_
  have hrel : (inner h).rel t t₁ := hr.rel ht
  split
  · exact .pure hrel
  · exact .fail hrel
  · refine .look_bind ?_
    split
    · exact .pure hrel
    · refine (ends_rel_removeWith hc hremoved hdelete (hrel.sound ht) hr.isReady ?_).imp fun _ _ hrest =>
        hrel.trans hrest
      rw [hr.path.deleting_eq not_false, hmarked hr.live]

/-- Deletions nest, and each level follows the same course. The induction is on the depth: members
are deleted by the deletions one level below. At depth zero nothing is done. -/
theorem follows_deleteWithin (depth : Nat) (h : HandleId) :
    Follows c (deleteWithin notify depth h) := by
  induction depth generalizing h with
  | zero => exact .pure false
  | succ depth ih =>
    intro t ht
    refine (Reads.ask _).ends_bind (fun _ => .look_bind ?_) fun _ => .refl
    split
    · exact .pure .refl
    · rename_i hidle
      rw [Bool.not_eq_true] at hidle
      have hstep : Table.Step (Eq .remove) t (t.updateHandle h fun s => { s with deleting := true }) :=
        .mark rfl h true
      refine .change_bind (.attempt_bind (ends_rel_deleteMarked hc hremoved ih (hstep.sound ht) fun hlive => ?_)
        fun answer t' hrel => .change_bind (.conclude (hc.unmark ht hidle hrel)))
      rw [Table.map_updateHandle Handle.deleted rfl] at hlive
      rw [Table.handle_updateHandle_self t (Table.lt_of_live hlive)]

end

/-- A deletion follows a course that takes removals, from any table, with the bound that is computed
when it starts. -/
theorem follows_delete (hn : Heeds c notify) (hc : c.Removes) (h : HandleId) :
    Follows c (delete notify h) :=
  .bind (.look _) fun _ => follows_deleteWithin hc.nests hn.removed _ h

end SymbolTable.Action
