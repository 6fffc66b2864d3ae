import SymbolTable.Proofs.Action.Serving
import SymbolTable.Proofs.Chronicle
import SymbolTable.Proofs.ScopeForest
import SymbolTable.Proofs.Table.Subtree

/-!
# What a deletion takes out

Where the store works and the listener only records, nothing can go wrong in a deletion: every part
of it answers, down to the symbols that lie deepest (`answers_delete`). On each level the rows that
it takes out lie in the symbol that is deleted, members first and the symbol's own row last
(`Table.Felled`). With the root of its subtree gone and a forest left, the whole subtree is gone and
nothing else is.
-/

namespace SymbolTable

open Table (Path Step)

variable {σ : Type} {t t' : Table} {notify : Listener σ} {h : HandleId} {id : SymbolId}
  {line : List SymbolId} {depth : Nat} {gone : List Departure}

/-- A listener that only records touches neither rows nor handles, which is all that a forest needs
of it. -/
theorem Listener.Records.quiet (hn : notify.Records) : Action.Quiet notify := by
  intro e s
  have hlogged : s.table.Drifts (s.logged e).table := ⟨rfl, rfl, rfl, rfl, rfl, rfl⟩
  exact hlogged.trans (hn e s).beside.drifts

/-- Nothing is lost while handles are kept up. -/
theorem Table.Loses.of_upkept (hrel : Course.upkept.rel t t') : t.Loses [] t' :=
  .nothing (Course.path_of_upkept hrel).upkeep.1 (Course.journal_of_upkept hrel)
    (Course.log_of_upkept hrel)

namespace Action

/-- The row of a symbol is taken out, noted and told. Its name can be had and the next one at its
address is found, since the store works. The listener adds the event to the log and does nothing
else. -/
theorem answers_removeRow_of_records (hb : t.store.backend.Sound) (hworks : t.store.Works)
    (hn : notify.Records) {r : Row} (hr : t.row? r.id = some r) :
    Answers t (removeRow notify h r) fun existed t' => existed = true ∧
      ∃ name, t.Loses [⟨r, name⟩] t' := by
  refine answers_removeRow hb hworks hr fun t₁ name s hremoval hs => ⟨rfl, name, ?_⟩
  obtain ⟨b, hremoves, hbeside⟩ := hremoval.exists_release
  have hstill := hn (Departure.mk r name).event s
  have hlogged : (s.logged (Departure.mk r name).event).table =
      s.table.logged (Departure.mk r name).event := rfl
  rw [hlogged, hs] at hstill
  refine .one hb (Table.mem_of_row? hr) hremoves rfl (hstill.beside.store.trans hbeside.store) ?_ ?_
  · rw [hstill.journal, ← hremoval.journal_eq]
    rfl
  · rw [hstill.log, ← hremoval.log_eq]
    rfl

/-! ## Clearing a scope -/

/-- A symbol that may be deleted and has a row is deleted with what lies in it. -/
def Fells (delete : HandleId → Action σ Bool) (depth : Nat) : Prop :=
  ∀ t h line r, Deletable t h line depth → t.Serving → (t.handle h).row = some r →
    Answers t (delete h) fun existed t' => existed = true ∧ ∃ gone, t.Felled r.id gone t'

section
variable {delete : HandleId → Action σ Bool} (hfells : Fells delete depth)

include hfells

/-- A member is deleted with what lies in it, or it is gone already. A member that is found is live
and not being deleted, as it lies in the first symbol of the line and would be on it, so the
deletion below takes it out. -/
theorem answers_clearMember (hd : t.Deleting (id :: line)) (hserving : t.Serving)
    (hline : t.Line id line) (hdepth : t.rows.length ≤ depth + (id :: line).length) {x : SymbolId}
    (hx : ∀ r, t.row? x = some r → r.parent = .of id) :
    Answers t (clearMember delete x) fun _ t' => ∃ gone, t.Felled id gone t' := by
  cases hrow : t.row? x with
  | none =>
    refine (answers_lookup_of_row?_eq_none hd.sound hd.exact hserving.works hrow).bind ?_
    rintro _ _ ⟨rfl, rfl⟩
    exact .pure ⟨[], .nothing (.nothing rfl rfl rfl)⟩
  | some r =>
    obtain ⟨⟨k, hkind, -⟩, -⟩ := hd.forest r (Table.mem_of_row? hrow)
    have hkept := follows_lookup (σ := σ) (c := .upkept) x t hd.sound
    refine ((answers_lookup hd.sound hserving.works hd.exact.pooled.pools ⟨r, k, hrow, hkind⟩).and hkept).bind ?_
    rintro _ t₁ ⟨⟨child, rfl, hserves⟩, hrel⟩
    have hpath := Course.path_of_upkept hrel
    have hlost : t.Felled id [] t₁ := .nothing (.of_upkept hrel)
    have hpruned : t.Pruned (id :: line) t₁ := .of_upkeep hpath hd.forest
    have hd₁ := hd.of_pruned hpruned
    have hrow₁ : t₁.row? x = some r := by
      rw [Table.row?_congr hpath.rows_eq_of_upkeep, hrow]
    have hdeletable : Deletable t₁ child (id :: line) depth :=
      .of_member hd₁ (hpruned.line_transfer hline)
        (Nat.le_trans (hpruned.length_le hd.sound) hdepth) hrow₁ (hx r hrow) hserves.key
    refine .look_bind ?_
    rw [hdeletable.idle, if_neg Bool.false_ne_true]
    obtain ⟨r', hhas, hid⟩ := (hd₁.sound.inOrder child).exists_row hserves.key hserves.ready.live
    have hserving₁ := hserving.of_outages hpruned.path hlost.loses.outages
    refine (hfells t₁ child _ r' hdeletable hserving₁ hhas).map ?_
    rintro _ t₂ ⟨-, gone, hfelled⟩
    obtain ⟨p, hp⟩ := hline.exists_row
    obtain rfl : p.id = id := Table.id_of_row? hp
    have hget' := (hd₁.exact.mirrors child).row r' hhas
    have hmember : t₁.Within p.id r' := by
      rw [hid, hrow₁] at hget'
      obtain rfl := Option.some.inj hget'
      have hroot : t₁.row? p.id = some p := hpruned.kept _ (.head _) _ hp
      exact .inside (Table.mem_of_row? hrow₁) (hx r hrow) (.root hroot)
    exact ⟨_, hlost.trans hd.sound hd₁.forest (hfelled.of_within hd₁.sound hmember)⟩

variable (hdelete : Deletes delete depth)

include hdelete

/-- All members are deleted, one after the other. The induction is on what is left of the list, and
the lines of the deletions are those of the scope. -/
theorem answers_clearMembers (xs : List Row) (hd : t.Deleting (id :: line)) (hserving : t.Serving)
    (hline : t.Line id line) (hdepth : t.rows.length ≤ depth + (id :: line).length)
    (hxs : ∀ x ∈ xs, ∀ r, t.row? x.id = some r → r.parent = .of id) :
    Answers t (xs.forM fun x => clearMember delete x.id) fun _ t' => ∃ gone, t.Felled id gone t' := by
  induction xs generalizing t with
  | nil => exact .pure ⟨[], .nothing (.nothing rfl rfl rfl)⟩
  | cons x xs ih =>
    rw [List.forM_eq_forM, List.forM_cons]
    have hx := hxs x (.head _)
    refine ((answers_clearMember hfells hd hserving hline hdepth hx).and
      (ends_clearMember hdelete hd hline hdepth hx)).bind ?_
    rintro _ t₁ ⟨⟨gone, hfelled⟩, hpruned, -⟩
    have hxs₁ : ∀ y ∈ xs, ∀ r, t₁.row? y.id = some r → r.parent = .of id := fun y hy r hrow =>
      hxs y (.tail _ hy) r (hpruned.row?_eq_some hd.sound hrow)
    have hserving₁ := hserving.of_outages hpruned.path hfelled.loses.outages
    have hdepth₁ := Nat.le_trans (hpruned.length_le hd.sound) hdepth
    refine (ih (hd.of_pruned hpruned) hserving₁ (hpruned.line_transfer hline) hdepth₁ hxs₁).imp ?_
    rintro _ t₂ ⟨gone', hfelled'⟩
    exact ⟨gone ++ gone', hfelled.trans hd.sound hpruned.forest hfelled'⟩

/-- A scope is cleared for certain, with everything that lies in it. Its members are read from the
list of rows, so each of them has it for its parent. The depth is enough for all that lie in it. -/
theorem answers_clearScope (hd : t.Deleting (id :: line)) (hserving : t.Serving)
    (hline : t.Line id line) (hdepth : t.rows.length ≤ depth + (id :: line).length) :
    Answers t (clearScope delete (.of id)) fun _ t' => ∃ gone, t.Felled id gone t' := by
  refine Ends.seq (.rowsIn hd.sound.backend (.ok ?_) fun _ hfails => absurd hfails hserving.works.not_mayFail)
  refine answers_clearMembers hfells hdelete _ hd hserving hline hdepth fun x hx r hrow => ?_
  obtain ⟨hx, hparent⟩ := List.mem_filter.1 hx
  cases hrow.symm.trans (Table.row?_id hd.sound.backend hx)
  exact of_decide_eq_true hparent

/-! ## Deleting -/

section
variable (hn : notify.Records)

include hn

/-- The members of a symbol are gone before its row is taken out. When they are gone, the row is
still there, because it is on the line, and what is lost of the subtree by then does not contain
it. -/
theorem answers_removeWith {r : Row} (hd : t.Deleting (r.id :: line)) (hserving : t.Serving)
    (hline : t.Line r.id line) (hdepth : t.rows.length ≤ depth + (r.id :: line).length)
    (hrow : (t.handle h).row = some r) :
    Answers t (removeWith notify delete h) fun existed t' => existed = true ∧
      ∃ gone, t.Felled r.id gone t' := by
  have hget := (hd.exact.mirrors h).row r hrow
  unfold removeWith
  refine .look_bind ?_
  rw [hrow]
  dsimp only
  split
  · refine ((answers_clearScope hfells hdelete hd hserving hline hdepth).and
      (ends_clearScope hdelete hd hline hdepth)).bind ?_
    rintro _ t₁ ⟨⟨gone, hfelled⟩, hpruned, -⟩
    have hget₁ := hpruned.kept _ (.head _) r hget
    have hserving₁ := hserving.of_outages hpruned.path hfelled.loses.outages
    refine (answers_removeRow_of_records (hpruned.path.sound hd.sound).backend hserving₁.works hn hget₁).imp ?_
    rintro _ t₂ ⟨hexisted, name, hlost⟩
    exact ⟨hexisted, _, hfelled.trans hd.sound hpruned.forest (.root hget₁ hlost)⟩
  · refine (answers_removeRow_of_records hd.sound.backend hserving.works hn hget).imp ?_
    rintro _ t₂ ⟨hexisted, name, hlost⟩
    exact ⟨hexisted, _, .root hget hlost⟩

/-- A symbol whose handle is marked is deleted for certain, its members first and its own row last.
The refresh before that finds the row, which is the one that the handle has. -/
theorem answers_deleteMarked {r : Row} (hd : t.Deleting (r.id :: line)) (hserving : t.Serving)
    (hline : t.Line r.id line) (hdepth : t.rows.length ≤ depth + (r.id :: line).length)
    (hrow : (t.handle h).row = some r) :
    Answers t (deleteMarked notify delete h) fun existed t' => existed = true ∧
      ∃ gone, t.Felled r.id gone t' := by
  have hlive := (hd.sound.inOrder h).live r hrow
  refine Ends.attempt_bind ((answers_refresh hd.sound hd.exact hserving.works hlive).and
    (ends_refresh hd.sound h)) ?_
  rintro _ t₁ ⟨_, rfl, -, hr⟩
  have hlost : t.Felled r.id [] t₁ := .nothing (.of_upkept hr.upkept)
  have hpruned : t.Pruned (r.id :: line) t₁ := .of_upkeep hr.path hd.forest
  have hrow₁ : (t₁.handle h).row = some r := (hr.row_eq_of_exact hd.exact).trans hrow
  refine .look_bind ?_
  rw [Handle.isDerived_of_row hrow₁, if_neg Bool.false_ne_true]
  have hd₁ := hd.of_pruned hpruned
  refine (answers_removeWith hfells hdelete hn hd₁ (hserving.of_outages hpruned.path hlost.loses.outages)
    (hpruned.line_transfer hline) (Nat.le_trans (hpruned.length_le hd.sound) hdepth) hrow₁).imp ?_
  rintro _ t₂ ⟨hexisted, gone, hfelled⟩
  exact ⟨hexisted, _, hlost.trans hd.sound hd₁.forest hfelled⟩

/-- The mark of the handle is no part of what is lost. So it may be compared with the table before
the mark was set, and the same is true of the end, where it is taken away. -/
theorem answers_deleteMarked_of_deletable {t₁ : Table}
    (hmarked : t.updateHandle h (fun s => { s with deleting := true }) = t₁) {r : Row}
    (hd : Deletable t h line (depth + 1)) (hserving : t.Serving) (hrow : (t.handle h).row = some r) :
    Answers t₁ (deleteMarked notify delete h) fun existed t₂ => existed = true ∧ t₂.Forest ∧
      ∃ gone, t.Felled r.id gone t₂ := by
  obtain ⟨hd₁, hline₁, hdepth₁⟩ := hd.mark hmarked hrow
  have hrow₁ : (t₁.handle h).row = some r := by
    rw [← hmarked, Table.map_updateHandle Handle.row rfl, hrow]
  have hserving₁ : t₁.Serving := hmarked ▸ ⟨hserving.works, hserving.opened⟩
  have hbefore : t.Felled r.id [] t₁ := hmarked ▸ .nothing (.nothing rfl rfl rfl)
  refine ((answers_deleteMarked hfells hdelete hn hd₁ hserving₁ hline₁ hdepth₁ hrow₁).and
    (ends_deleteMarked hn.quiet hdelete hd₁ hline₁ hdepth₁ hrow₁)).imp ?_
  rintro _ t₂ ⟨⟨hexisted, gone, hfelled⟩, hpruned, -⟩
  exact ⟨hexisted, hpruned.forest, _, hbefore.trans hd.deleting.sound hd₁.forest hfelled⟩

end

end

/-- At every depth, what may be deleted and has a row is deleted with what lies in it. The induction
is on the depth, and on each level the deletions one level below are the hypothesis. That the depth
suffices was computed from the number of rows. -/
theorem fells_deleteWithin (hn : notify.Records) (depth : Nat) :
    Fells (deleteWithin notify depth) depth := by
  induction depth with
  | zero =>
    intro t h line r hd hserving hrow
    -- there is no row left that is not on the line
    have hget := (hd.deleting.exact.mirrors h).row r hrow
    have hkey := (hd.deleting.sound.inOrder h).key r hrow
    have hlt := (hd.onLine r.id r hkey hget).length_lt hd.deleting.forest
    have hle := hd.le_depth
    omega
  | succ depth ih =>
    intro t h line r hd hserving hrow
    refine Ends.ask_bind (fun _ _ => ?_) fun fault hfault => ?_
    · refine .look_bind ?_
      rw [hd.idle, if_neg Bool.false_ne_true]
      have hdelete := deletes_deleteWithin hn.quiet depth
      refine Ends.change_bind (Ends.attempt_bind
        (answers_deleteMarked_of_deletable ih hdelete hn rfl hd hserving hrow) ?_)
      rintro _ t₂ ⟨_, rfl, rfl, hforest, gone, hfelled⟩
      have hafter : t₂.Felled r.id [] (t₂.updateHandle h fun s => { s with deleting := false }) :=
        .nothing (.nothing rfl rfl rfl)
      exact Ends.change_bind (.conclude ⟨true, rfl, rfl, _,
        hfelled.trans hd.deleting.sound hforest hafter⟩)
    · rw [hserving.opened] at hfault
      cases hfault

/-- A deletion answers that there was a row. What it took out was in the symbol, and what is left is
a forest. The depth with which it starts is enough for everything in the symbol. -/
theorem answers_delete (hn : notify.Records) (hd : Deletable t h [] t.deletionDepth)
    (hserving : t.Serving) {r : Row} (hrow : (t.handle h).row = some r) :
    Answers t (delete notify h) fun existed t' => existed = true ∧ Deleted t h [] (.ok existed) t' ∧
      ∃ gone, t.Felled r.id gone t' := by
  refine Answers.look_bind (((fells_deleteWithin hn _ t h [] r hd hserving hrow).and
    (deletes_deleteWithin hn.quiet _ t h [] hd)).imp ?_)
  rintro _ t' ⟨⟨hexisted, hgone⟩, hdeleted⟩
  exact ⟨hexisted, hdeleted, hgone⟩

/-! ## Symbols that are gone -/

/-- A symbol whose handle is marked deleted says that it is not there. The refresh refuses it at
once, without a call of the store. -/
theorem answers_isValid_of_deleted (hs : t.Sound) (hdeleted : (t.handle h).deleted = true) :
    Answers t (isValid h : Action σ _) fun valid _ => valid = false := by
  have hanswers : Answers t (isValid h : Action σ _) fun _ _ => True := by
    refine Ends.attempt_bind (R := fun _ _ => True) (fun _ _ => trivial) fun answer t' _ => ?_
    split <;> exact Answers.pure trivial
  refine (hanswers.and (ends_isValid hs h)).imp ?_
  rintro valid t' ⟨-, hlive⟩
  refine Bool.eq_false_iff.2 ?_
  rintro rfl
  rw [hlive rfl] at hdeleted
  cases hdeleted

/-- To delete a symbol whose handle is marked deleted answers that there was no row, and changes
nothing. So a deletion that comes upon a handle twice does no harm. -/
theorem answers_deleteMarked_of_deleted (hs : t.Sound) (hworks : t.store.Works)
    (hdeleted : (t.handle h).deleted = true) {delete : HandleId → Action σ Bool} :
    Answers t (deleteMarked notify delete h) fun existed t' => existed = false ∧ t' = t := by
  refine Ends.attempt_bind (ends_refresh hs h) fun answer t' hr => ?_
  cases hr with
  | deleted => exact Answers.pure ⟨rfl, rfl⟩
  | ready hready => cases hready.live.symm.trans hdeleted
  | reloaded hlive | vanished hlive => cases hlive.symm.trans hdeleted
  | failed _ hfails => exact absurd hfails hworks.not_mayFail

/-- To delete a symbol that is gone does nothing. Only the mark is set and taken away again, which
leaves no trace as it was not there. -/
theorem answers_delete_of_deleted (hs : t.Sound) (hserving : t.Serving)
    (hdeleted : (t.handle h).deleted = true) (hidle : (t.handle h).deleting = false) :
    Answers t (delete notify h) fun existed t' => existed = false ∧ t' = t := by
  have hmarked : ((t.updateHandle h fun s => { s with deleting := true }).handle h).deleted = true := by
    rw [Table.map_updateHandle Handle.deleted rfl, hdeleted]
  have hmark : Step (Eq .remove) t (t.updateHandle h fun s => { s with deleting := true }) := .mark rfl h true
  refine Answers.look_bind (Ends.ask_bind (fun _ _ => .look_bind ?_) fun fault hfault => ?_)
  · rw [hidle, if_neg Bool.false_ne_true]
    refine Ends.change_bind (Ends.attempt_bind
      (answers_deleteMarked_of_deleted (hmark.sound hs) hserving.works hmarked) ?_)
    rintro _ _ ⟨_, rfl, rfl, rfl⟩
    exact Ends.change_bind (.conclude ⟨false, rfl, rfl, t.unmark_mark hidle⟩)
  · rw [hserving.opened] at hfault
    cases hfault

end Action

/-! ## Subtrees in runs -/

open SymbolTable.Action

variable {s₀ s : Situated σ}

/-- **Deletion takes out a symbol with everything in it, and nothing else.** Whatever symbols were
created, edited and deleted in a table that was opened empty: if the store works, a stored symbol
that says that it is there can be deleted. The rows that this takes out are its own and those that
lie in it, and each of them is one write, is noted once and is told once, before the scope in which
it lay. The handles of these symbols say then that they are gone, and to delete the symbol once more
does nothing. No listener acts on the table, rows are changed through it alone, derived symbols are
not relocated, and there are ids left. -/
theorem Runs.delete_takes_subtree {rules : Rules} (hnew : s₀.table.IsNew rules)
    (hrun : Runs Move.keepsForest false s₀ s) (hlt : s.table.drawn < UInt64.size - 1)
    (hworks : s.table.store.Works) (hnotify : notify.Records)
    (hkey : (s.table.handle h).key = .stored id) (hvalid : ((isValid h).run s).1 = .ok true) :
    ∃ gone s', (delete notify h).run s = (.ok true, s') ∧ s.table.Loses gone s'.table ∧
      (∀ x, x ∈ gone.map (·.row) ↔ s.table.Within id x) ∧
      s'.table.store.modificationCount =
        s.table.store.modificationCount + UInt64.ofNat gone.length ∧
      (∀ d ∈ gone, ∀ k, (s'.table.handle k).key = .stored d.row.id →
        ((isValid k).run s').1 = .ok false) ∧
      ∃ s'', (delete notify h).run s' = (.ok false, s'') ∧ s''.table = s'.table := by
  have hstanding := hrun.standing hnew
  have hs := hstanding.sound
  have he := hstanding.exact hlt
  have hidle := hstanding.idle hlt
  have hserving : s.table.Serving := ⟨hworks, hrun.opened hnew⟩
  have hlive := ends_isValid hs h s rfl hvalid
  obtain ⟨r, hrow, rfl⟩ := (hs.inOrder h).exists_row hkey hlive
  obtain ⟨_, s', hrun', rfl, hdeleted, gone, hfelled⟩ :=
    (answers_delete hnotify (.of_idle hs he (hstanding.forest hlt) hidle h) hserving hrow).exists_run
  have hpath := hdeleted.pruned.path
  have hs' := hpath.sound hs
  have he' := hpath.exact nofun nofun hs nofun he
  have hserving' := hserving.of_outages hpath hfelled.loses.outages
  -- nothing is stored under the key of a handle whose row is gone, so the handle is marked deleted
  have hmarked {k : HandleId} {i : SymbolId} (hkey : (s'.table.handle k).key = .stored i)
      (hnone : s'.table.row? i = none) : (s'.table.handle k).deleted = true := by
    rw [← Bool.not_eq_false]
    intro hlive
    obtain ⟨x, hx, rfl⟩ := (hs'.inOrder k).exists_row hkey hlive
    cases hnone.symm.trans ((he'.mirrors k).row x hx)
  have hkey' := hpath.key_stored hs hkey
  have hidle' : (s'.table.handle h).deleting = false := by
    refine Bool.eq_false_iff.2 fun hdeleting => ?_
    cases (hidle h).symm.trans (hdeleted.pruned.calm h hdeleting)
  have hroot := hdeleted.gone true rfl r.id hkey
  have hagain : Answers s'.table (delete notify h) fun existed t' => existed = false ∧ t' = s'.table :=
    answers_delete_of_deleted hs' hserving' (hmarked hkey' hroot) hidle'
  obtain ⟨_, s'', hagain, rfl, hsame⟩ := hagain.exists_run
  refine ⟨gone, s', hrun', hfelled.loses, hfelled.subtree hs hdeleted.pruned.forest hroot, ?_,
    fun d hd k hk => ?_, s'', hagain, hsame⟩
  · show UInt64.ofNat s'.table.writes = UInt64.ofNat s.table.writes + _
    rw [hfelled.loses.writes, UInt64.ofNat_add]
  · obtain ⟨_, s₂, hanswer, rfl⟩ := (answers_isValid_of_deleted (σ := σ) hs'
      (hmarked hk (hfelled.loses.row?_eq_none hs hd))).exists_run
    rw [hanswer]

/-- A scope is deleted in which another one lies, with a label. A label beside them stays. Three
rows are taken out, each of which counts as a write, and to delete the outer scope once more does
nothing. -/
theorem Runs.delete_takes_subtree_of_nested :
    let s₀ : Situated Unit := ⟨.empty default .standard, (), 0⟩
    let id (n : UInt64) (h : n ≠ 0) : Scope := .of ⟨n, h⟩
    let new (name : String) (k : Kind) (a : Address) (scope : Scope) : Move :=
      .create ⟨name, k, a, scope, .userDefined, 0, 0, none⟩
    let go (s : Situated Unit) (m : Move) := ((m.action Listener.recorder).run s).2
    let s := [new "outer" .namespaceScope .nowhere .global,
      new "inner" .namespaceScope .nowhere (id 1 (by decide)),
      new "x" .label (.ram 16) (id 2 (by decide)), new "y" .label (.ram 16) .global].foldl go s₀
    s₀.table.IsNew .standard ∧ Runs Move.keepsForest false s₀ s ∧
      s.table.drawn < UInt64.size - 1 ∧ s.table.store.Works ∧ (Listener.recorder : Listener Unit).Records ∧
      (s.table.handle 0).key = .stored ⟨1, by decide⟩ ∧ ((isValid 0).run s).1 = .ok true ∧
      ∃ gone s', (delete Listener.recorder 0).run s = (.ok true, s') ∧ s.table.Loses gone s'.table ∧
        (∀ x, x ∈ gone.map (·.row) ↔ s.table.Within ⟨1, by decide⟩ x) ∧
        s'.table.store.modificationCount =
          s.table.store.modificationCount + UInt64.ofNat gone.length ∧
        (∀ d ∈ gone, ∀ k, (s'.table.handle k).key = .stored d.row.id →
          ((isValid k).run s').1 = .ok false) ∧
        ∃ s'', (delete Listener.recorder 0).run s' = (.ok false, s'') ∧ s''.table = s'.table := by
  intro s₀ id new go s
  have hnew : s₀.table.IsNew .standard := .memory _ _ _
  have hchronicle : Chronicle Move.keepsForest false s₀ s :=
    .move (.move (.move (.move .refl rfl Chronicle.recorder) rfl Chronicle.recorder)
      rfl Chronicle.recorder) rfl Chronicle.recorder
  have hrun := hchronicle.runs
  have hlt : s.table.drawn < UInt64.size - 1 := by decide
  have hworks := hchronicle.works hnew.sound fun _ _ _ => rfl
  have hkey : (s.table.handle 0).key = .stored ⟨1, by decide⟩ := by decide
  have hvalid : ((isValid 0).run s).1 = .ok true := by decide
  exact ⟨hnew, hrun, hlt, hworks, Listener.records_recorder, hkey, hvalid,
    Runs.delete_takes_subtree hnew hrun hlt hworks Listener.records_recorder hkey hvalid⟩

end SymbolTable
