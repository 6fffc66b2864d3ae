import SymbolTable.Proofs.Cascade
import SymbolTable.Proofs.Refusals

/-!
# Torn deletions

A deletion takes out one row at a time, those in a symbol before its own, and asks the store before
and after each of them. Wherever it is refused, what was done by then stays (`Table.Cut`): some rows
have departed as they do in a deletion that is not refused, and the symbol itself is not among them
(`Table.Sheds`). If the store does not say then who is next at the address of a row that was just
taken out, that row is gone, too, but nobody was told, nothing was noted, and it is still designated
(`Table.Severs`).

What is left is in order: symbols whose rows are stored are there once the store works again, and
the others are not (`Runs.refused_deletions_are_cut`). So where nothing lies in a symbol that is not
designated, a deletion that is refused has done nothing, but other symbols are torn
(`Runs.deletions_tear`).
-/

namespace SymbolTable

open Table (Path Step)

variable {σ α : Type} {t t₁ t' : Table} {notify : Listener σ} {h : HandleId} {id : SymbolId}
  {line : List SymbolId} {depth : Nat} {gone gone' : List Departure} {answer : Except Fault α}

/-- The listener leaves the references alone. -/
def Listener.SparesReferences (notify : Listener σ) : Prop :=
  ∀ (e : Event) (s : Situated σ), (notify e s).table.references = s.table.references

namespace Table

/-! ## What is gone when a deletion stops -/

/-- Rows of a subtree departed one after the other: what was bound to them leads to the primary
symbol at their address, and no other designations were passed on than theirs. -/
structure Sheds (t : Table) (id : SymbolId) (gone : List Departure) (t' : Table) : Prop
    extends t.Felled id gone t' where
  references : t'.references =
    gone.foldl (fun x d => (x.retarget d.row.address d.row.id .primary).2) t.references
  designated : ∀ a, t'.facts.primaryAt a = t.facts.primaryAt a ∨
    ∃ d ∈ gone, d.row.address = a ∧ t.facts.primaryAt a = some d.row.id

namespace Sheds

/-- Where nothing was touched, nothing departed. -/
theorem nothing (huntouched : t.Untouched t') : t.Sheds id [] t' where
  toFelled := .nothing (.nothing huntouched.store huntouched.journal huntouched.log)
  references := huntouched.references
  designated a := .inl (by rw [huntouched.facts])

/-- The row of the root departs. The premises are what `removeRow` has done by its end: the row is
out, the references are handed over, and the entry and the event are there. -/
theorem root {d : Departure} {b : Store.Backend} (hs : t.Sound) (hd : t.row? d.row.id = some d.row)
    (hremoves : t.store.backend.Removes d.row.id b) (hstore : t'.store = t.store.withBackend b)
    (hjournal : t'.journal = t.journal.record d.entry) (hlog : t'.log = t.log ++ [d.event])
    (hreferences : t'.references = (t.references.retarget d.row.address d.row.id .primary).2)
    (hdesignated : ∀ a, t'.facts.primaryAt a = t.facts.primaryAt a ∨
      d.row.address = a ∧ t.facts.primaryAt a = some d.row.id) : t.Sheds d.row.id [d] t' where
  toFelled := .root hd (.one hs.backend (mem_of_row? hd) hremoves rfl hstore hjournal hlog)
  references := hreferences
  designated a := (hdesignated a).imp_right fun hprimary => ⟨d, .head _, hprimary⟩

/-- What departs in two stretches departs over both, one after the other. In between there has to be
a forest, so that nothing departs from what has departed. Owners are rewritten twice, which comes to
rewriting them once for all rows that are gone. -/
theorem trans (h : t.Sheds id gone t₁) (hs : t.Sound) (hf : t₁.Forest) (h' : t₁.Sheds id gone' t') :
    t.Sheds id (gone ++ gone') t' where
  toFelled := h.toFelled.trans hs hf h'.toFelled
  references := by rw [h'.references, h.references, List.foldl_append]
  designated a := by
    rcases h.designated a with heq | ⟨d, hd, hprimary⟩
    · rw [← heq]
      refine (h'.designated a).imp_right ?_
      rintro ⟨d, hd, hprimary⟩
      exact ⟨d, List.mem_append_right _ hd, hprimary⟩
    · exact .inr ⟨d, List.mem_append_left _ hd, hprimary⟩

/-- What departs from the subtree of a symbol departs from every subtree in which the symbol
lies. -/
theorem of_within {r : Row} (h : t.Sheds r.id gone t') (hs : t.Sound) (hr : t.Within id r) :
    t.Sheds id gone t' :=
  ⟨h.toFelled.of_within hs hr, h.references, h.designated⟩

/-- What has departed has still departed when nothing was touched since. -/
theorem of_untouched (h : t.Sheds id gone t₁) (hs : t.Sound) (hf : t₁.Forest) (huntouched : t₁.Untouched t') :
    t.Sheds id gone t' := by
  have hboth := h.trans hs hf (.nothing huntouched)
  rwa [List.append_nil] at hboth

/-- What is still there has not departed. -/
theorem id_ne (h : t.Sheds id gone t') (hs : t.Sound) {p : Row} {i : SymbolId} (hp : t'.row? i = some p) :
    ∀ d ∈ gone, d.row.id ≠ i := by
  rintro d hd rfl
  cases (h.loses.row?_eq_none hs hd).symm.trans hp

end Sheds

/-- The row of the symbol that is designated at its address was taken out, and then the store did
not say who is next there. -/
structure Severs (t : Table) (r : Row) (fault : Fault) (t' : Table) : Prop extends t.Unnoted t' where
  stored : t.row? r.id = some r
  mem_rows : ∀ x, x ∈ t'.rows ↔ x ∈ t.rows ∧ x.id ≠ r.id
  writes : t'.writes = t.writes + 1
  designated : t.facts.primaryAt r.address = some r.id
  fails : ∃ cause, fault = .store cause ∧ t'.store.MayFail .rowsAt none cause

/-- That a row was taken out, and nobody was told, is still so when nothing was touched since. That
it happens takes a designated symbol, and a store that fails between the removal and the question
who is next. -/
theorem Severs.of_untouched {r : Row} {fault : Fault} (h : t.Severs r fault t₁)
    (huntouched : t₁.Untouched t') : t.Severs r fault t' where
  toUnnoted := h.toUnnoted.trans huntouched.toUnnoted
  stored := h.stored
  mem_rows := by
    rw [huntouched.rows_eq]
    exact h.mem_rows
  writes := huntouched.writes_eq.trans h.writes
  designated := h.designated
  fails := by
    rw [huntouched.store]
    exact h.fails

/-- How far a deletion of a symbol came. -/
inductive Cut (t : Table) (id : SymbolId) : Except Fault α → Table → Prop where
  | ended {x : α} {gone : List Departure} {t' : Table} (hsheds : t.Sheds id gone t') : Cut t id (.ok x) t'
  /-- It was refused before a row was taken out, or after one had departed. -/
  | between {fault : Fault} {gone : List Departure} {t' : Table} (hsheds : t.Sheds id gone t')
      (hbelow : ∀ d ∈ gone, d.row.id ≠ id) : Cut t id (.error fault) t'
  /-- It was refused between the write that took out a row and its departure. -/
  | amid {fault : Fault} {gone : List Departure} {t₁ t' : Table} {r : Row} (hsheds : t.Sheds id gone t₁)
      (hbelow : ∀ d ∈ gone, d.row.id ≠ id) (hwithin : t.Within id r) (hsevers : t₁.Severs r fault t') :
      Cut t id (.error fault) t'

namespace Cut

/-- A deletion that touched nothing is cut before it began. -/
theorem untouched (huntouched : t.Untouched t') : t.Cut id answer t' := by
  cases answer with
  | ok x => exact .ended (.nothing huntouched)
  | error fault => exact .between (.nothing huntouched) fun _ hd => nomatch hd

/-- Where a deletion is cut does not depend on what is made of its answer. There is one case for
each place in which it may be cut. -/
theorem map {β : Type} (f : α → β) (h : t.Cut id answer t') : t.Cut id (answer.map f) t' := by
  cases h with
  | ended hsheds => exact .ended hsheds
  | between hsheds hbelow => exact .between hsheds hbelow
  | amid hsheds hbelow hwithin hsevers => exact .amid hsheds hbelow hwithin hsevers

/-- A deletion is still cut where it was if nothing was touched since, as when the mark is taken
from its handle. The same rows are missing then, and the one whose removal broke off is the same. -/
theorem of_untouched (h : t.Cut id answer t₁) (hs : t.Sound) (hf : t₁.Forest)
    (huntouched : t₁.Untouched t') : t.Cut id answer t' := by
  cases h with
  | ended hsheds => exact .ended (hsheds.of_untouched hs hf huntouched)
  | between hsheds hbelow => exact .between (hsheds.of_untouched hs hf huntouched) hbelow
  | amid hsheds hbelow hwithin hsevers =>
    exact .amid hsheds hbelow hwithin (hsevers.of_untouched huntouched)

/-- A deletion is cut after what has departed while it went on. The symbol itself is still there
when the deletion goes on, so no part of what has departed so far was its own row. -/
theorem after (h : t₁.Cut id answer t') (hs : t.Sound) (hf : t₁.Forest) (hsheds : t.Sheds id gone t₁)
    {p : Row} (hp : t₁.row? id = some p) : t.Cut id answer t' := by
  have hbefore := hsheds.id_ne hs hp
  have hbelow {gone' : List Departure} (hbelow : ∀ d ∈ gone', d.row.id ≠ id) :
      ∀ d ∈ gone ++ gone', d.row.id ≠ id := by
    intro d hd
    exact (List.mem_append.1 hd).elim (hbefore d) (hbelow d)
  cases h with
  | ended hrest => exact .ended (hsheds.trans hs hf hrest)
  | between hrest hrestBelow => exact .between (hsheds.trans hs hf hrest) (hbelow hrestBelow)
  | amid hrest hrestBelow hwithin hsevers =>
    have hwithin' : t.Within id _ :=
      hwithin.mono hs.backend fun y hy => ((hsheds.loses.mem_rows y).1 hy).1
    exact .amid (hsheds.trans hs hf hrest) (hbelow hrestBelow) hwithin' hsevers

/-- The deletion of something in a symbol that stays cuts the subtree of the symbol. To be cut
includes the case that something in it was severed. Then the row of the symbol is not the one that
was taken out, since it is still there. -/
theorem of_within {r p : Row} (h : t.Cut r.id answer t') (hs : t.Sound) (hr : t.Within id r)
    (hp : t'.row? id = some p) : t.Cut id answer t' := by
  cases h with
  | ended hsheds => exact .ended (hsheds.of_within hs hr)
  | between hsheds =>
    have hsheds := hsheds.of_within hs hr
    exact .between hsheds (hsheds.id_ne hs hp)
  | @amid _ gone t₁ _ x hsheds _ hwithin hsevers =>
    have hsheds := hsheds.of_within hs hr
    have hp₁ : ∀ d ∈ gone, d.row.id ≠ id := by
      rintro d hd rfl
      have hnone := hsheds.loses.row?_eq_none hs hd
      exact row?_eq_none_iff.1 hnone p ((hsevers.mem_rows p).1 (mem_of_row? hp)).1 (id_of_row? hp)
    exact .amid hsheds hp₁ (hwithin.trans hs.backend hr) hsevers

end Cut

end Table

namespace Action

/-! ## Taking out a row -/

/-- What becomes of a designation that is to be passed on. -/
inductive PassesOn (t : Table) (a : Address) (id : SymbolId) : Except Fault Unit → Table → Prop where
  | undesignated (hother : t.facts.primaryAt a ≠ some id) : PassesOn t a id (.ok ()) t
  | passed (hprimary : t.facts.primaryAt a = some id) (successor : Option SymbolId) :
      PassesOn t a id (.ok ()) { t with facts := t.facts.setPrimary a successor }
  | unanswered (hprimary : t.facts.primaryAt a = some id) (cause : StoreFault)
      (hfails : t.store.MayFail .rowsAt none cause) : PassesOn t a id (.error (.store cause)) t

/-- At most the designation at the address is another one. It changes only if the symbol had it, and
who gets it is the next at the address. Handles and rows are as they were. -/
theorem PassesOn.designated {a : Address} {answer : Except Fault Unit} (h : PassesOn t a id answer t') :
    t' = { t with facts := t'.facts } ∧ ∀ b, t'.facts.primaryAt b = t.facts.primaryAt b ∨
      a = b ∧ t.facts.primaryAt b = some id := by
  cases h with
  | undesignated | unanswered => exact ⟨rfl, fun _ => .inl rfl⟩
  | passed hprimary =>
    refine ⟨rfl, fun b => ?_⟩
    rw [Facts.primaryAt_setPrimary]
    split
    · rename_i hb
      exact .inr ⟨hb.symm, hb ▸ hprimary⟩
    · exact .inl rfl

/-- A designation is passed on if the symbol had it, and nothing else happens. If the store does not
say who is next, the designation stays where it was. -/
theorem ends_passPrimary_passesOn (hb : t.store.backend.Sound) (a : Address) (id : SymbolId) :
    Ends t (passPrimary a id : Action σ _) (PassesOn t a id) := by
  refine .look_bind ?_
  split
  · rename_i hprimary
    exact .seq (.seq (.rowsAt hb (.ok (.look (.ok (.change (.passed hprimary _)))))
      fun cause hfails => .unanswered hprimary cause hfails))
  · rename_i hother
    exact .pure (.undesignated hother)

section
variable (hn : notify.Records) (hspares : notify.SparesReferences)

include hn hspares

/-- The row of a symbol departs, or the store fails before or after it is taken out. There are three
calls that may fail: to tell the name that is noted, to take the row out, and to say who is next.
Only the last one leaves something done. -/
theorem ends_removeRow_cut {r : Row} (hs : t.Sound) (hr : t.row? r.id = some r) :
    Ends t (removeRow notify h r) (t.Cut r.id) := by
  refine (reads_displayName r).ends_bind (fun name => ?_) fun _ => .untouched (.refl t)
  refine .seq (.seq (.takeRow hs.backend (fun b hremoves => .ok (.change_bind (.pure (.ok ?_))))
    fun _ _ => .untouched (.refl t)))
  refine .bind (ends_passPrimary_passesOn hremoves.sound _ _) ?_ ?_
  · intro _ t₁ hpasses
    obtain ⟨htable, hdesignated⟩ := hpasses.designated
    refine .change_bind (.seq (.emit fun s htold => .ok (.pure (.ended (?_ : t.Sheds r.id [⟨r, name⟩] _)))))
    have hstill := hn (Departure.mk r name).event s
    refine .root (d := ⟨r, name⟩) hs hr hremoves (hstill.beside.store.trans ?_) (hstill.journal.trans ?_)
      (hstill.log.trans ?_) ((hspares _ s).trans ?_) fun a => ?_
    · show s.table.store = _
      rw [htold, htable]
      rfl
    · show s.table.journal = _
      rw [htold, htable]
      rfl
    · show s.table.log ++ _ = _
      rw [htold, htable]
      rfl
    · rw [htold, htable]
      rfl
    · have hfacts : (notify (Departure.mk r name).event s).table.facts = t₁.facts := by
        rw [hstill.facts]
        show s.table.facts = _
        rw [htold]
      exact hfacts ▸ hdesignated a
  · rintro fault _ (⟨⟩ | ⟨⟩ | ⟨hprimary, cause, hfails⟩)
    refine .amid (.nothing (.refl t)) (fun _ hd => nomatch hd) (.root hr) ?_
    refine ⟨⟨rfl, rfl, rfl, rfl⟩, hr, hremoves.mem_rows, ?_, hprimary, cause, rfl, hfails⟩
    have hwrites := hremoves.writes
    rw [show t.store.backend.rows.find? (·.id = r.id) = some r from hr] at hwrites
    exact hwrites

end

/-! ## Clearing a scope -/

/-- However far a deletion of a stored symbol that may be deleted comes, it is cut there. -/
def Cuts (delete : HandleId → Action σ Bool) (depth : Nat) : Prop :=
  ∀ t h line id, Deletable t h line depth → (t.handle h).key = .stored id → Ends t (delete h) (t.Cut id)

section
variable {delete : HandleId → Action σ Bool} (hcuts : Cuts delete depth) (hdelete : Deletes delete depth)

include hcuts hdelete

/-- The deletion of a member cuts the subtree of the scope in which it lies, if the member is still
there. A member that is gone by then is passed over. The premise on `x` says where its row lies if
it has one, so that the subtree of the member is a part of the one that is cut. -/
theorem ends_clearMember_cut (hd : t.Deleting (id :: line)) (hline : t.Line id line)
    (hdepth : t.rows.length ≤ depth + (id :: line).length) {x : SymbolId}
    (hx : ∀ r, t.row? x = some r → r.parent = .of id) :
    Ends t (clearMember delete x) (t.Cut id) := by
  have hpath := follows_lookup (σ := σ) (c := .steps Table.upkeep) x t hd.sound
  have hlookup := (spreads_spares (σ := σ).lookup x t).and (hpath.and (ends_lookup hd.sound hd.exact x))
  refine .bind hlookup ?_ fun _ _ ⟨huntouched, _⟩ => .untouched huntouched
  rintro found t₁ ⟨huntouched, hpath, hfinds⟩
  have hfinds := hfinds found rfl
  cases found with
  | none => exact .pure (.untouched huntouched)
  | some child =>
    obtain ⟨hlive, hkey⟩ := hfinds
    have hpruned : t.Pruned (id :: line) t₁ := .of_upkeep hpath hd.forest
    have hd₁ := hd.of_pruned hpruned
    have hline₁ := hpruned.line_transfer hline
    obtain ⟨r, hrow, rfl⟩ := (hd₁.sound.inOrder child).exists_row hkey hlive
    have hget := (hd₁.exact.mirrors child).row r hrow
    have hparent := hx r (hpruned.row?_eq_some hd.sound hget)
    have hdepth₁ := Nat.le_trans (hpruned.length_le hd.sound) hdepth
    have hdeletable : Deletable t₁ child (id :: line) depth :=
      .of_member hd₁ hline₁ hdepth₁ hget hparent hkey
    obtain ⟨p, hp⟩ := hline₁.exists_row
    have hmember : t₁.Within id r := by
      obtain rfl := Table.id_of_row? hp
      exact .inside (Table.mem_of_row? hget) hparent (.root hp)
    refine .look_bind ?_
    rw [hdeletable.idle, if_neg Bool.false_ne_true]
    have hcut {answer : Except Fault Bool} {t₂ : Table} (hcut : t₁.Cut r.id answer t₂)
        (hdeleted : Deleted t₁ child (id :: line) answer t₂) : t.Cut id answer t₂ := by
      have hp₂ := hdeleted.pruned.kept id (.head _) p hp
      exact (hcut.of_within hd₁.sound hmember hp₂).after hd.sound hd₁.forest (.nothing huntouched) hp
    exact .map ((hcuts t₁ child _ r.id hdeletable hkey).and (hdelete t₁ child _ hdeletable))
      (fun existed _ ⟨h₁, h₂⟩ => (hcut h₁ h₂).map fun _ => ())
      fun fault _ ⟨h₁, h₂⟩ => (hcut h₁ h₂).map fun _ => ()

/-- The members of a scope are deleted in the order in which they were listed, and wherever this
stops, the subtree of the scope is cut there. The induction is on what is left of the list. -/
theorem ends_clearMembers_cut (xs : List Row) (hd : t.Deleting (id :: line)) (hline : t.Line id line)
    (hdepth : t.rows.length ≤ depth + (id :: line).length)
    (hxs : ∀ x ∈ xs, ∀ r, t.row? x.id = some r → r.parent = .of id) :
    Ends t (xs.forM fun x => clearMember delete x.id) (t.Cut id) := by
  induction xs generalizing t with
  | nil => exact .pure (.untouched (.refl t))
  | cons x xs ih =>
    rw [List.forM_eq_forM, List.forM_cons]
    have hx := hxs x (.head _)
    refine .bind ((ends_clearMember_cut hcuts hdelete hd hline hdepth hx).and
      (ends_clearMember hdelete hd hline hdepth hx)) ?_ fun _ _ ⟨hcut, _⟩ => hcut
    rintro _ t₁ ⟨⟨hsheds⟩, hpruned, -⟩
    have hxs₁ : ∀ y ∈ xs, ∀ r, t₁.row? y.id = some r → r.parent = .of id := fun y hy r hrow =>
      hxs y (.tail _ hy) r (hpruned.row?_eq_some hd.sound hrow)
    have hdepth₁ := Nat.le_trans (hpruned.length_le hd.sound) hdepth
    have hline₁ := hpruned.line_transfer hline
    obtain ⟨p, hp⟩ := hline₁.exists_row
    exact (ih (hd.of_pruned hpruned) hline₁ hdepth₁ hxs₁).imp fun _ _ hcut =>
      hcut.after hd.sound hpruned.forest hsheds hp

/-- To clear a scope cuts its subtree, whether the members can be listed or not. If they cannot,
nothing was touched. Otherwise they are deleted one after the other, and the first that is refused
ends it. -/
theorem ends_clearScope_cut (hd : t.Deleting (id :: line)) (hline : t.Line id line)
    (hdepth : t.rows.length ≤ depth + (id :: line).length) :
    Ends t (clearScope delete (.of id)) (t.Cut id) := by
  refine .seq (.rowsIn hd.sound.backend (.ok ?_) fun _ _ => .untouched (.refl t))
  refine ends_clearMembers_cut hcuts hdelete _ hd hline hdepth fun x hx r hrow => ?_
  obtain ⟨hx, hparent⟩ := List.mem_filter.1 hx
  cases hrow.symm.trans (Table.row?_id hd.sound.backend hx)
  exact of_decide_eq_true hparent

/-! ## Deleting -/

section
variable (hn : notify.Records) (hspares : notify.SparesReferences)

include hn hspares

/-- The row of a symbol is still there when what lies in it has departed. If the deletion of a
member is refused, it ends there. Otherwise the scope is empty, its row is taken out, and this may
be refused on its own. -/
theorem ends_removeWith_cut {r : Row} (hd : t.Deleting (r.id :: line)) (hline : t.Line r.id line)
    (hdepth : t.rows.length ≤ depth + (r.id :: line).length) (hrow : (t.handle h).row = some r) :
    Ends t (removeWith notify delete h) (t.Cut r.id) := by
  have hget := (hd.exact.mirrors h).row r hrow
  unfold removeWith
  refine .look_bind ?_
  rw [hrow]
  dsimp only
  split
  · refine .bind ((ends_clearScope_cut hcuts hdelete hd hline hdepth).and
      (ends_clearScope hdelete hd hline hdepth)) ?_ fun _ _ ⟨hcut, _⟩ => hcut.map fun _ => false
    rintro _ t₁ ⟨⟨hsheds⟩, hpruned, -⟩
    have hget₁ := hpruned.kept _ (.head _) r hget
    exact (ends_removeRow_cut hn hspares (hpruned.path.sound hd.sound) hget₁).imp fun _ _ hcut =>
      hcut.after hd.sound hpruned.forest hsheds hget₁
  · exact ends_removeRow_cut hn hspares hd.sound hget

/-- To delete a symbol whose handle is marked cuts its subtree, the row of the symbol coming last.
The mark is set and taken away by the one who calls this, so it is no part of what is cut. -/
theorem ends_deleteMarked_cut {r : Row} (hd : t.Deleting (r.id :: line)) (hline : t.Line r.id line)
    (hdepth : t.rows.length ≤ depth + (r.id :: line).length) (hrow : (t.handle h).row = some r) :
    Ends t (deleteMarked notify delete h) (t.Cut r.id) := by
  have hget := (hd.exact.mirrors h).row r hrow
  refine .attempt_bind (ends_refresh hd.sound h) fun answer t₁ hr => ?_
  have huntouched := hr.untouched
  split
  · exact .pure (.untouched huntouched)
  · exact .fail (.untouched huntouched)
  · have hrow₁ : (t₁.handle h).row = some r := (hr.row_eq_of_exact hd.exact).trans hrow
    have hpruned : t.Pruned (r.id :: line) t₁ := .of_upkeep hr.path hd.forest
    refine .look_bind ?_
    rw [Handle.isDerived_of_row hrow₁, if_neg Bool.false_ne_true]
    have hdepth₁ := Nat.le_trans (hpruned.length_le hd.sound) hdepth
    refine (ends_removeWith_cut hcuts hdelete hn hspares (hd.of_pruned hpruned)
      (hpruned.line_transfer hline) hdepth₁ hrow₁).imp fun _ _ hcut => ?_
    exact hcut.after hd.sound hpruned.forest (.nothing huntouched) (hpruned.kept _ (.head _) r hget)

end

end

section
variable (hn : notify.Records) (hspares : notify.SparesReferences)

include hn hspares

/-- At every depth, a deletion is cut wherever it stops. The induction is on the depth: what is said
of the deletions one level below is the hypothesis for the members. At depth zero nothing may be
deleted, for there is no row off the line. -/
theorem cuts_deleteWithin (depth : Nat) : Cuts (deleteWithin notify depth) depth := by
  induction depth with
  | zero => exact fun t _ _ _ _ _ => .pure (.untouched (.refl t))
  | succ depth ih =>
    intro t h line id hd hkey
    refine .ask_bind (fun _ _ => .look_bind ?_) fun _ _ => .untouched (.refl t)
    rw [hd.idle, if_neg Bool.false_ne_true]
    have hstep : Step Table.pruning t (t.updateHandle h fun s => { s with deleting := true }) :=
      .mark (.inl rfl) h true
    have hmark : t.Untouched (t.updateHandle h fun s => { s with deleting := true }) :=
      ⟨⟨rfl, rfl, rfl, rfl⟩, rfl⟩
    have hunmark (t₁ : Table) : t₁.Untouched (t₁.updateHandle h fun s => { s with deleting := false }) :=
      ⟨⟨rfl, rfl, rfl, rfl⟩, rfl⟩
    have hrow₁ := Table.map_updateHandle (t := t) (h := h) (f := fun s => { s with deleting := true })
      (k := h) Handle.row rfl
    refine .change_bind ?_
    cases hrow : (t.handle h).row with
    | none =>
      have hs₁ := hstep.sound hd.deleting.sound
      have he₁ := hstep.exact nofun nofun hd.deleting.sound nofun hd.deleting.exact
      refine .attempt_bind (ends_deleteMarked_of_rowless hs₁ he₁ (hrow₁.trans hrow)) ?_
      rintro answer _ ⟨rfl, -⟩
      exact .change_bind (.conclude (.untouched (hmark.trans (hunmark _))))
    | some r =>
      have hkey' := (hd.deleting.sound.inOrder h).key r hrow
      obtain rfl : r.id = id := Key.stored.inj (hkey'.symm.trans hkey)
      obtain ⟨hd₁, hline₁, hdepth₁⟩ := hd.mark rfl hrow
      have hget := (hd.deleting.exact.mirrors h).row r hrow
      have hdelete := deletes_deleteWithin hn.quiet depth
      have hends := (ends_deleteMarked_cut ih hdelete hn hspares hd₁ hline₁ hdepth₁ (hrow₁.trans hrow)).and
        (ends_deleteMarked hn.quiet hdelete hd₁ hline₁ hdepth₁ (hrow₁.trans hrow))
      refine .attempt_bind hends ?_
      rintro answer t₁ ⟨hcut, hpruned, -⟩
      have hcut := hcut.after hd.deleting.sound hd₁.forest (.nothing hmark) hget
      exact .change_bind (.conclude (hcut.of_untouched hd.deleting.sound hpruned.forest (hunmark t₁)))

/-- A deletion is cut at whatever call of the store it is refused. That the symbol may be deleted is
so in every table at rest. -/
theorem ends_delete_cut (hd : Deletable t h [] t.deletionDepth) (hkey : (t.handle h).key = .stored id) :
    Ends t (delete notify h) (t.Cut id) :=
  .look_bind (cuts_deleteWithin hn hspares _ t h [] id hd hkey)

end

/-! ## Symbols that are left -/

/-- A live handle in a table that serves stands for a symbol that is there. In an exact table its
row is stored, with the kind that the handle has, so no refresh turns it down. -/
theorem answers_isValid_of_live (hs : t.Sound) (he : t.Exact) (hserving : t.Serving)
    (hlive : (t.handle h).deleted = false) :
    Answers t (isValid h : Action σ _) fun valid _ => valid = true := by
  have hcurrent : Answers t (current h (pure ()) : Action σ Unit) fun _ _ => True := by
    refine Ends.ask_bind (fun _ _ => (answers_refresh hs he hserving.works hlive).bind fun _ _ _ =>
      .pure trivial) fun fault hfault => ?_
    rw [hserving.opened] at hfault
    cases hfault
  refine Ends.attempt_bind hcurrent ?_
  rintro _ t' ⟨_, rfl, -⟩
  exact .pure ⟨true, rfl, rfl⟩

/-- A stored symbol is there if and only if its row is. If the row is there, so is the handle, since
it was not marked deleted without the row being taken out. -/
theorem answers_isValid_of_stored (hs : t.Sound) (he : t.Exact) (hserving : t.Serving)
    (hkey : (t.handle h).key = .stored id) :
    Answers t (isValid h : Action σ _) fun valid _ => valid = true ↔ ∃ r, t.row? id = some r := by
  cases hdeleted : (t.handle h).deleted with
  | true =>
    have hnone := (he.mirrors h).gone id hkey hdeleted
    refine (answers_isValid_of_deleted hs hdeleted).imp ?_
    rintro _ _ rfl
    simp [hnone]
  | false =>
    obtain ⟨r, hrow, rfl⟩ := (hs.inOrder h).exists_row hkey hdeleted
    refine (answers_isValid_of_live hs he hserving hdeleted).imp ?_
    rintro _ _ rfl
    exact iff_of_true rfl ⟨r, (he.mirrors h).row r hrow⟩

end Action

namespace Table.Cut

/-- A deletion of a symbol that is not designated, and in which nothing lies, does nothing if it is
refused. What is in its subtree is its own row alone, by induction on what lies in it, and a symbol
that is not designated cannot be severed. -/
theorem nothing_of_leaf {fault : Fault} (h : t.Cut id (.error fault : Except Fault α) t')
    (hleaf : ∀ x ∈ t.rows, x.parent ≠ .of id)
    (hother : ∀ r, t.row? id = some r → t.facts.primaryAt r.address ≠ some id) : t.Sheds id [] t' := by
  have hroot {x : Row} (hx : t.Within id x) : t.row? id = some x := by
    induction hx with
    | root hrow => exact hrow
    | inside hr hparent _ ih => exact absurd (id_of_row? ih ▸ hparent) (hleaf _ hr)
  have hgone {gone : List Departure} {t₁ : Table} (hsheds : t.Sheds id gone t₁)
      (hbelow : ∀ d ∈ gone, d.row.id ≠ id) : gone = [] :=
    List.eq_nil_iff_forall_not_mem.2 fun d hd => hbelow d hd (id_of_row? (hroot (hsheds.within d hd)))
  cases h with
  | between hsheds hbelow => exact hgone hsheds hbelow ▸ hsheds
  | amid hsheds hbelow hwithin hsevers =>
    obtain rfl := hgone hsheds hbelow
    have hrow := hroot hwithin
    refine absurd ?_ (hother _ hrow)
    rcases hsheds.designated _ with heq | ⟨d, hd, -⟩
    · rw [← heq, hsevers.designated, id_of_row? hrow]
    · cases hd

end Table.Cut

/-! ## Refused deletions in runs -/

open SymbolTable.Action

/-- A deletion of a symbol was refused. -/
structure Situated.Interrupted (s : Situated σ) (id : SymbolId) (fault : Fault) (s' : Situated σ) : Prop where
  /-- Nothing but the store refuses it. -/
  byStore : ∃ cause, fault = .store cause
  cut : s.table.Cut id (.error fault : Except Fault Bool) s'.table
  /-- Once the store works again, symbols are there if and only if their rows are. -/
  valid : ∀ k i, (s.table.handle k).key = .stored i →
    (((isValid k).run s'.restored).1 = .ok true ↔ ∃ r, s'.table.row? i = some r)
  /-- Where nothing lies in a symbol that is not designated, nothing was done. -/
  nothing : (∀ x ∈ s.table.rows, x.parent ≠ .of id) →
    (∀ r, s.table.row? id = some r → s.table.facts.primaryAt r.address ≠ some id) →
    s.table.Sheds id [] s'.table

/-- **A refused deletion leaves what it has done.** Whatever symbols were created, edited and
deleted in a table that was opened empty, and whichever calls of the store fail: where the deletion
of a stored symbol is refused, rows that lie in the symbol may have departed, each as in a deletion
that is not refused, and one more may be gone of which nobody was told, which is designated still.
The other rows are untouched, and their symbols are there once the store works again. No listener
acts on the table, rows are changed through it alone, derived symbols are not relocated, and there
are ids left. -/
theorem Runs.refused_deletions_are_cut {rules : Rules} {s₀ s : Situated σ} (hnew : s₀.table.IsNew rules)
    (hrun : Runs Move.keepsForest false s₀ s) (hlt : s.table.drawn < UInt64.size - 1)
    (hn : notify.Records) (hspares : notify.SparesReferences)
    (hkey : (s.table.handle h).key = .stored id) {fault : Fault}
    (hfault : ((delete notify h).run s).1 = .error fault) :
    s.Interrupted id fault ((delete notify h).run s).2 := by
  have hstanding := hrun.standing hnew
  have hs := hstanding.sound
  have he := hstanding.exact hlt
  have hforest := hstanding.forest hlt
  have hidle := hstanding.idle hlt
  have hopen := hrun.opened hnew
  have hkinded : s.table.Kinded := by
    refine ⟨hs, hopen, fun r hr => ?_⟩
    obtain ⟨⟨k, hkind, -⟩, -⟩ := hforest r hr
    exact ⟨k, hkind⟩
  have hpath := (ends_delete hn.quiet hs he hforest hidle h s rfl).pruned.path
  have hcut := ends_delete_cut hn hspares (.of_idle hs he hforest hidle h) hkey s rfl
  rw [hfault] at hcut
  refine ⟨(sturdy_delete hn h s.table hkinded s rfl).2 fault hfault, hcut, fun k i hk => ?_, hcut.nothing_of_leaf⟩
  have hs' := hpath.sound hs
  have he' := hpath.exact nofun nofun hs nofun he
  generalize ((delete notify h).run s).2 = s' at hpath hs' he'
  have hrestored : Path (· = .plan) s'.table s'.table.restored :=
    (s'.table.drifts_withOutages .never).path rfl
  have he'' := hrestored.exact nofun nofun hs' nofun he'
  have hserving : s'.table.restored.Serving :=
    ⟨s'.table.works_restored, hpath.sameFrame.closed.trans hopen⟩
  have hk' : (s'.table.restored.handle k).key = .stored i := hpath.key_stored hs hk
  obtain ⟨valid, _, hanswer, hvalid⟩ :=
    (answers_isValid_of_stored (σ := σ) hs'.restored he'' hserving hk').exists_run (s := s'.restored)
  rw [hanswer, Except.ok.injEq]
  exact hvalid

/-- Of two labels in a scope, the second one cannot be taken out. The first one has departed then,
as it does in a deletion that is not refused. The scope and the second one are still there, and say
so once the store works. -/
theorem Runs.refused_deletions_are_cut_of_scope :
    let s₀ : Situated Unit := ⟨.empty default .standard, (), 0⟩
    let new (name : String) (k : Kind) (a : Address) (scope : Scope) : Move :=
      .create ⟨name, k, a, scope, .userDefined, 0, 0, none⟩
    let go (s : Situated Unit) (m : Move) := ((m.action Listener.recorder).run s).2
    let s₁ := [new "n" .namespaceScope .nowhere .global,
      new "a" .label (.ram 16) (.of ⟨1, by decide⟩),
      new "b" .label (.ram 32) (.of ⟨1, by decide⟩)].foldl go s₀
    let down : StoreFault := .transaction "disk unavailable"
    let s := s₁.withOutages (.ofRules [⟨.remove, some 3, down⟩])
    let deleted := (delete Listener.recorder 0).run s
    s₀.table.IsNew .standard ∧ Runs Move.keepsForest false s₀ s ∧
      s.table.drawn < UInt64.size - 1 ∧ (Listener.recorder : Listener Unit).Records ∧
      (Listener.recorder : Listener Unit).SparesReferences ∧
      (s.table.handle 0).key = .stored ⟨1, by decide⟩ ∧ deleted.1 = .error (.store down) ∧
      s.Interrupted ⟨1, by decide⟩ (.store down) deleted.2 := by
  intro s₀ new go s₁ down s deleted
  have hnew : s₀.table.IsNew .standard := .memory _ _ _
  have hchronicle : Chronicle Move.keepsForest false s₀ s₁ :=
    .move (.move (.move .refl rfl Chronicle.recorder) rfl Chronicle.recorder) rfl Chronicle.recorder
  have hrun : Runs Move.keepsForest false s₀ s := hchronicle.runs.withOutages _
  have hlt : s.table.drawn < UInt64.size - 1 := by decide
  have hspares : (Listener.recorder : Listener Unit).SparesReferences := fun _ _ => rfl
  have hkey : (s.table.handle 0).key = .stored ⟨1, by decide⟩ := by decide
  have hfault : deleted.1 = .error (.store down) := by decide
  exact ⟨hnew, hrun, hlt, Listener.records_recorder, hspares, hkey, hfault,
    Runs.refused_deletions_are_cut hnew hrun hlt Listener.records_recorder hspares hkey hfault⟩

/-- Of two labels in a scope, the second one cannot be taken out, and so the first one is gone. Then
the second one is deleted itself: its row is gone when the store does not say who is next at its
address. Neither is there once the store works again. -/
theorem Runs.deletions_tear :
    let s₀ : Situated Unit := ⟨.empty default .standard, (), 0⟩
    let new (name : String) (k : Kind) (a : Address) (scope : Scope) : Move :=
      .create ⟨name, k, a, scope, .userDefined, 0, 0, none⟩
    let go (s : Situated Unit) (m : Move) := ((m.action Listener.recorder).run s).2
    let s₁ := [new "n" .namespaceScope .nowhere .global,
      new "a" .label (.ram 16) (.of ⟨1, by decide⟩),
      new "b" .label (.ram 32) (.of ⟨1, by decide⟩)].foldl go s₀
    let down : StoreFault := .transaction "disk unavailable"
    let s := s₁.withOutages (.ofRules [⟨.remove, some 3, down⟩])
    let cut := (delete Listener.recorder 0).run s
    let severed := (delete Listener.recorder 2).run (cut.2.withOutages (.ofRules [⟨.rowsAt, none, down⟩]))
    Runs Move.keepsForest false s₀ s ∧
      s₁.table.rows.map (·.id.val) = [1, 2, 3] ∧ s₁.table.log.length = 3 ∧
      cut.1 = .error (.store down) ∧
      cut.2.table.rows.map (·.id.val) = [1, 3] ∧ cut.2.table.log.length = 4 ∧
      cut.2.table.facts.primaryAt (.ram 16) = none ∧
      ((isValid 1).run cut.2.restored).1 = .ok false ∧
      severed.1 = .error (.store down) ∧
      severed.2.table.rows.map (·.id.val) = [1] ∧ severed.2.table.log.length = 4 ∧
      (severed.2.table.facts.primaryAt (.ram 32)).map (·.val) = some 3 ∧
      ((isValid 2).run severed.2.restored).1 = .ok false := by
  intro s₀ new go s₁ down s cut severed
  have hchronicle : Chronicle Move.keepsForest false s₀ s₁ :=
    .move (.move (.move .refl rfl Chronicle.recorder) rfl Chronicle.recorder) rfl Chronicle.recorder
  exact ⟨hchronicle.runs.withOutages _, by decide, by decide, by decide, by decide, by decide, by decide,
    by decide, by decide, by decide, by decide, by decide, by decide⟩

end SymbolTable
