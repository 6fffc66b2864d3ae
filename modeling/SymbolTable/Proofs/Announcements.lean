import SymbolTable.Proofs.Identity
import SymbolTable.Proofs.Outcome
import SymbolTable.Proofs.Refusals

/-!
# Names that are announced

With a symbol those are renamed that borrow their names from it, and those that borrow from these.
Where the store works and listeners only record, a rename tells of the symbol itself and of the
unnamed functions that borrow from it directly, of each of them once and under which names it was
and is shown (`Runs.renames_are_told`). Of a symbol that borrows through another one nobody is told
(`Runs.borrowed_names_change_silently`).
-/

namespace SymbolTable

open SymbolTable.Action
open Table (Path upkeep)

variable {σ : Type} {t t₁ t₂ t' : Table} {notify : Listener σ} {h k : HandleId} {id : SymbolId} {r r' x : Row}

/-! ## Rules of lending -/

/-- From which symbol a row borrows its name is told by its id, its kind, its provenance and its
first datum, and it is not the row's own. -/
structure Rules.LendsByLink (rules : Rules) : Prop where
  ne_self : ∀ r, rules.lender? r ≠ some r.id
  congr : ∀ r r' : Row, r'.id = r.id → r'.tag = r.tag → r'.provenance = r.provenance → r'.data1 = r.data1 →
    rules.lender? r' = rules.lender? r

/-- Rules that follow from what kinds can do lend names by links: an unnamed function borrows from
the symbol that its first datum names, unless this is the function itself. -/
theorem Rules.lendsByLink_ofCapabilities (capabilities : Kind → Capabilities) :
    (ofCapabilities capabilities).LendsByLink where
  ne_self r := by
    show lenderOf r ≠ some r.id
    simp [lenderOf, Option.filter_eq_some_iff]
  congr r r' hid htag hprovenance hdata := by
    show lenderOf r' = lenderOf r
    have hkind : r'.kind? = r.kind? := congrArg Kind.ofTag? htag
    rw [lenderOf, lenderOf, hkind, hprovenance, hdata, hid]

namespace Table

/-! ## Tables that answer -/

/-- The handles have these rows, each its own. -/
def HaveRows (t : Table) : List HandleId → List Row → Prop :=
  List.Forall₂ fun k x => (t.handle k).row = some x

/-- What is stored is known, and calls are answered. -/
structure Answering (t : Table) : Prop where
  sound : t.Sound
  exact : t.Exact
  serving : t.Serving

namespace Answering

variable (ha : t.Answering)

include ha

/-- A table in which calls are answered still answers when handles have been kept up. -/
theorem of_upkeep (hpath : Path upkeep t t') : t'.Answering where
  sound := hpath.sound ha.sound
  exact := hpath.exact not_false not_false ha.sound False.elim ha.exact
  serving := ha.serving.of_outages hpath (congrArg Store.outages hpath.upkeep.1)

/-- The handles in a list still have their rows when handles have been kept up. -/
theorem rows_of_upkeep {ks : List HandleId} {xs : List Row} (hpath : Path upkeep t t')
    (hks : t.HaveRows ks xs) : t'.HaveRows ks xs :=
  List.Forall₂.imp (fun _ _ hrow => ha.exact.row_of_upkeep ha.sound hpath hrow) hks

section
variable {b : Store.Backend} (hrow : (t.handle h).row = some r)

include hrow

/-- The handle whose row is written has the new row at once. -/
theorem row_written (r' : Row) (b : Store.Backend) : ((t.written h r' b).handle h).row = some r' := by
  have hlt := lt_of_live ((ha.sound.inOrder h).live r hrow)
  rw [Table.written, handle_updateHandle_withBackend, handle_updateHandle_self t hlt]
  rfl

variable (hid : r'.id = r.id) (htag : r'.tag = r.tag) (hputs : t.store.backend.Puts r' b)

include hid htag hputs

/-- Calls are still answered when a row has been written that keeps its id and its kind. -/
theorem written : (t.written h r' b).Answering :=
  ⟨ha.sound.written hrow hid htag hputs, ha.exact.edit ha.sound hrow hid hputs,
    ⟨ha.serving.works, ha.serving.opened⟩⟩

/-- Where a row is written, the handles of others keep theirs. Their rows have other ids, which is
why the dependents of a symbol can be asked for their new names after it was written. -/
theorem rows_written {ks : List HandleId} {xs : List Row} (hne : ∀ x ∈ xs, x.id ≠ r.id)
    (hks : t.HaveRows ks xs) : (t.written h r' b).HaveRows ks xs := by
  have hboth := (List.forall₂_and_left xs ks).2 ⟨hne, List.Forall₂.flip hks⟩
  refine hboth.flip.imp fun k x hx => ?_
  have hkey : ((t.written h r' b).handle k).key = .stored x.id := by
    rw [Table.written, handle_updateHandle_withBackend, map_updateHandle Handle.key rfl]
    exact (ha.sound.inOrder k).key x hx.2
  have hget : (t.written h r' b).row? x.id = some x := by
    refine (row?_puts ha.sound.backend hputs x.id).trans ?_
    rw [if_neg (hid ▸ hx.1)]
    exact (ha.exact.mirrors k).row x hx.2
  have hwritten := ha.written hrow hid htag hputs
  exact hwritten.exact.row_of_key hwritten.sound hkey hget

end

end Answering

/-- A refresh finds a symbol under the name under which it was shown. The name is told by the rows
and by the copy, and the copy is the row. -/
theorem Refreshed.shownFor_eq (hr : t.Refreshed k (.ok ()) t') (he : t.Exact) :
    t'.shownFor (t'.handle k) = t.shownFor (t.handle k) := by
  rw [Table.shownFor_eq hr.path.sameFrame hr.path.rows_eq_of_upkeep]
  cases hrow : (t.handle k).row with
  | none => rw [hr.eq_of_row_eq_none hrow]
  | some r => rw [shownFor_of_row hrow, shownFor_of_row ((hr.row_eq_of_exact he).trans hrow)]

/-! ## What is announced -/

/-- The rows that borrow their names from that of a function. -/
def dependents (t : Table) (r : Row) : List Row :=
  if r.kind? = some .function then t.rows.filter (t.rules.lender? · = some r.id) else []

/-- It is told under which name the symbol of a row was shown, and under which one it is shown as
another row. -/
def retitling (t t' : Table) (r r' : Row) : Event :=
  ⟨.stored r.id, r.address, .renamed (t.shown r) (t'.shown r')⟩

/-- A row is renamed, and this is announced. -/
structure Retitled (t : Table) (r r' : Row) (t' : Table) : Prop where
  frame : t.SameFrame t'
  row?_eq : ∀ id, t'.row? id = if id = r.id then some r' else t.row? id
  /-- Another row shows the same name as before, unless it borrows it from this one. -/
  shown_eq : ∀ x, ¬ t.Borrows r.id x → t'.shown x = t.shown x
  /-- It is told that it was renamed and that those were that borrow from it directly, and of no
  other renaming; or of none at all, and then it shows the same name as before. -/
  told : ∃ es, t'.log = t.log ++ es ∧
    (es.filter (·.change.sort = .renamed) = [] ∧ t'.shown r' = t.shown r ∨
      es.filter (·.change.sort = .renamed) =
        t.retitling t' r r' :: (t.dependents r).map fun x => t.retitling t' x x)
  /-- These are different symbols. -/
  nodup : ((r :: t.dependents r).map (·.id)).Nodup

/-- All of it is told as renamings. The first is that of the symbol itself, and the others are those
of its borrowers. -/
theorem filter_retitlings (t t' : Table) (r r' : Row) (xs : List Row) :
    (t.retitling t' r r' :: xs.map fun x => t.retitling t' x x).filter (·.change.sort = .renamed) =
      t.retitling t' r r' :: xs.map fun x => t.retitling t' x x := by
  refine List.filter_eq_self.2 fun e he => decide_eq_true ?_
  rcases List.mem_cons.1 he with rfl | he
  · rfl
  · obtain ⟨x, -, rfl⟩ := List.mem_map.1 he
    rfl

/-- The dependents of a row are stored, and they borrow their names from it. A row that is not that
of a function has none. -/
theorem mem_dependents (hx : x ∈ t.dependents r) : x ∈ t.rows ∧ t.rules.lender? x = some r.id := by
  unfold dependents at hx
  split at hx
  · exact (List.mem_filter.1 hx).imp_right of_decide_eq_true
  · cases hx

/-- A row is not its own dependent, and it has no dependent twice. So of each symbol it is told at
most once. Ids are not repeated among the rows, and rules that lend by links never name the row
itself. -/
theorem nodup_dependents (hs : t.Sound) (hrules : t.rules.LendsByLink) (r : Row) :
    ((r :: t.dependents r).map (·.id)).Nodup := by
  rw [List.map_cons, List.nodup_cons]
  constructor
  · rintro hmem
    obtain ⟨x, hx, hid⟩ := List.mem_map.1 hmem
    exact hrules.ne_self x (hid ▸ (mem_dependents hx).2)
  · unfold dependents
    split
    · exact hs.backend.ascending_rows.nodup_ids.sublist (List.filter_sublist.map _)
    · exact List.nodup_nil

/-- Once the row is written, only what is told of it is left to say. Either nothing is told as a
renaming, and then no name has changed, or the symbol and its dependents are told of, in the order
of their ids. -/
theorem Retitled.of_reports (hs : t.Sound) (hrules : t.rules.LendsByLink) (hreplaces : t.Replaces r' t₁)
    (hid : r'.id = r.id) (hframe : t.SameFrame t₁) (hlog : t₁.log = t.log) {es : List Event}
    {ns : List Journal.Entry} (hr : t₁.Reports es ns t')
    (htold : es.filter (·.change.sort = .renamed) = [] ∧ t₁.shown r' = t.shown r ∨
      es.filter (·.change.sort = .renamed) =
        t.retitling t₁ r r' :: (t.dependents r).map fun x => t.retitling t₁ x x) : t.Retitled r r' t' := by
  have hshown : t'.shown = t₁.shown := Table.shown_eq hr.path.sameFrame hr.rows_eq
  have hrow? (id : SymbolId) : t₁.row? id = if id = r.id then some r' else t.row? id := hid ▸ hreplaces id
  refine ⟨hframe.trans hr.path.sameFrame, fun id => (row?_congr hr.rows_eq id).trans (hrow? id),
    fun x hborrows => ?_, ⟨es, ?_, ?_⟩, nodup_dependents hs hrules r⟩
  · rw [hshown]
    refine shown_congr hframe fun i hi => (hrow? i).trans (if_neg ?_)
    rintro rfl
    exact hborrows hi
  · rw [hr.log, hlog]
  · simp only [retitling, hshown]
    exact htold

/-- What comes to the same rows borrows from the same. So who borrows from whom does not change with
handles. The induction is on the chain of lenders. -/
theorem Borrows.congr (hrules : t'.rules = t.rules) (hrows : t'.rows = t.rows) (hb : t.Borrows id x) :
    t'.Borrows id x := by
  induction hb with
  | direct hunnamed hlender => exact .direct hunnamed (hrules ▸ hlender)
  | through hunnamed hlender hrow _ ih =>
    exact .through hunnamed (hrules ▸ hlender) ((row?_congr hrows _).trans hrow) ih

/-- What handles are kept up for is not announced. Neither the rows nor what is shown of them
changes by that, so the names before the rename may be looked up at either table. -/
theorem Retitled.after (hrel : Course.upkept.rel t t₁) (hr : t₁.Retitled r r' t') : t.Retitled r r' t' := by
  have hpath := Course.path_of_upkept hrel
  have hrows : t₁.rows = t.rows := hpath.rows_eq_of_upkeep
  have hrules := hpath.sameFrame.rules
  have hshown : t₁.shown = t.shown := Table.shown_eq hpath.sameFrame hrows
  have hdependents : t₁.dependents r = t.dependents r := by rw [dependents, dependents, hrows, hrules]
  obtain ⟨hframe, hrow?, hothers, ⟨es, hlog, htold⟩, hnodup⟩ := hr
  rw [hdependents] at htold hnodup
  rw [hshown] at hothers
  simp only [retitling, hshown] at htold
  refine ⟨hpath.sameFrame.trans hframe, fun id => ?_,
    fun x hborrows => hothers x fun hb => hborrows ?_, ⟨es, ?_, htold⟩, hnodup⟩
  · rw [hrow?, row?_congr hrows]
  · exact hb.congr hrules.symm hrows.symm
  · rw [hlog, Course.log_of_upkept hrel]

end Table

/-! ## Names that are asked for -/

namespace Action

section
variable (ha : t.Answering)

include ha

/-- What is asked of the symbol of a live handle is asked once the handle is current. A live handle
is refreshed for certain where calls are answered, so there is no case of a refusal to be looked
at. -/
theorem ends_current_of_live (hlive : (t.handle k).deleted = false) {α : Type} {a : Action σ α}
    {Q : Except Fault α → Table → Prop} (hasked : ∀ t₁, t.Refreshed k (.ok ()) t₁ → Ends t₁ a Q) :
    Ends t (current k a) Q := by
  refine Ends.ask_bind (fun _ _ => ?_) fun fault hfault => ?_
  · refine ((answers_refresh ha.sound ha.exact ha.serving.works hlive).and (ends_refresh ha.sound k)).ends_bind ?_
    rintro _ t₁ ⟨-, hr⟩
    exact hasked t₁ hr
  · rw [ha.serving.opened] at hfault
    cases hfault

/-- What is asked of the symbol of a live handle is answered if it is answered once the handle was
refreshed. -/
theorem answers_current (hlive : (t.handle k).deleted = false) {α : Type} {a : Action σ α} {P : α → Table → Prop}
    (hasked : ∀ t₁, t.Refreshed k (.ok ()) t₁ → Answers t₁ a P) : Answers t (current k a) P :=
  ends_current_of_live ha hlive hasked

/-- The symbol of a handle tells its name. Its handle is refreshed for it, which is all that happens
to the table. -/
theorem answers_currentName (hlive : (t.handle k).deleted = false) :
    Answers t (currentName k : Action σ _) fun name t' =>
      name = t.shownFor (t.handle k) ∧ Course.upkept.rel t t' := by
  refine answers_current ha hlive fun t₁ hr => ?_
  have ha₁ := ha.of_upkeep hr.path
  refine (answers_nameOf ha₁.sound.backend ha₁.serving.works k).imp ?_
  rintro _ _ ⟨rfl, rfl⟩
  exact ⟨hr.shownFor_eq ha.exact, hr.upkept⟩

/-- The name that a stored symbol tells is the one that its row shows. -/
theorem answers_currentName_of_row (hrow : (t.handle k).row = some x) :
    Answers t (currentName k : Action σ _) fun name t' => name = t.shown x ∧ Course.upkept.rel t t' := by
  rw [← Table.shownFor_of_row hrow]
  exact answers_currentName ha ((ha.sound.inOrder k).live x hrow)

/-- The names of several symbols are told in the order in which they are asked. Handles are kept up
between the questions, which changes none of the names. -/
theorem answers_mapM_currentName {ks : List HandleId} {xs : List Row} (hks : t.HaveRows ks xs) :
    Answers t (ks.mapM currentName : Action σ _) fun names t' =>
      names = xs.map t.shown ∧ Course.upkept.rel t t' := by
  induction ks generalizing t xs with
  | nil =>
    cases hks
    exact .pure ⟨rfl, .refl⟩
  | cons k ks ih =>
    cases hks with
    | @cons _ x _ xs hrow hks =>
      rw [List.mapM_cons]
      refine (answers_currentName_of_row ha hrow).bind ?_
      rintro _ t₁ ⟨rfl, hrel₁⟩
      have hpath₁ := Course.path_of_upkept hrel₁
      refine (ih (ha.of_upkeep hpath₁) (ha.rows_of_upkeep hpath₁ hks)).bind ?_
      rintro _ t₂ ⟨rfl, hrel₂⟩
      rw [Table.shown_eq hpath₁.sameFrame hpath₁.rows_eq_of_upkeep]
      exact .pure ⟨rfl, hrel₁.trans hrel₂⟩

/-- The handles of the dependents of a stored symbol are found. They are looked for among all rows,
by the symbol from which each of them borrows. Some of the handles may be new, and all of them have
their rows. -/
theorem answers_borrowers (hkinds : ∀ x ∈ t.rows, ∃ k, x.kind? = some k) (hrow : (t.handle h).row = some r) :
    Answers t (borrowers h : Action σ _) fun ks t' =>
      t'.HaveRows ks (t.dependents r) ∧ Course.upkept.rel t t' := by
  have hid : (t.handle h).id? = some r.id := Handle.id?_eq_some_iff.2 ((ha.sound.inOrder h).key r hrow)
  have hkind : r.kind? = some (t.handle h).kind := Kind.ofTag?_eq_some_iff.2 ((ha.sound.inOrder h).tag r hrow)
  refine .look_bind ?_
  rw [hid, Table.dependents, hkind]
  dsimp only
  by_cases hfunction : (t.handle h).kind = .function
  · rw [if_neg (not_not.2 hfunction), if_pos (congrArg some hfunction)]
    refine Ends.seq (.allRows ha.sound.backend (.ok (.look_bind ?_))
      fun _ hfails => absurd hfails ha.serving.works.not_mayFail)
    generalize hxs : t.rows.filter (t.rules.lender? · = some r.id) = xs
    have hmem : ∀ x ∈ xs, t.row? x.id = some x := fun x hx =>
      Table.row?_id ha.sound.backend (List.mem_filter.1 (hxs ▸ hx)).1
    have hids : ∀ i ∈ xs.map (·.id), t.HasSymbol i := by
      intro i hi
      obtain ⟨x, hx, rfl⟩ := List.mem_map.1 hi
      obtain ⟨k, hk⟩ := hkinds x (Table.mem_of_row? (hmem x hx))
      exact ⟨x, k, hmem x hx, hk⟩
    refine ((answers_lookupEach ha.sound ha.serving.works ha.exact.pooled.pools _ hids).and
      (follows_lookupEach (c := .upkept) _ t ha.sound)).imp ?_
    rintro ks t' ⟨hserves, hrel⟩
    have hpath := Course.path_of_upkept hrel
    refine ⟨?_, hrel⟩
    have hboth := (List.forall₂_and_left xs ks).2 ⟨hmem, (List.forall₂_map_right_iff.1 hserves).flip⟩
    have ha' := ha.of_upkeep hpath
    refine hboth.flip.imp fun k x hx => ha'.exact.row_of_key ha'.sound hx.2.key ?_
    rw [Table.row?_congr hpath.rows_eq_of_upkeep, hx.1]
  · rw [if_pos hfunction, if_neg fun heq => hfunction (Option.some.inj heq)]
    exact .pure ⟨.nil, .refl⟩

/-! ## Announcing -/

/-- It is told of a borrower under which name it was shown, and under which one it is. The name that
it shows now is asked for after the lender was written, so it is the new one. -/
theorem answers_announceBorrower (hn : notify.Records) (hrow : (t.handle k).row = some x) (old : String) :
    Answers t (announceBorrower notify k old) fun _ t' =>
      t.Reports [⟨.stored x.id, x.address, .renamed old (t.shown x)⟩] [] t' := by
  refine (answers_currentName_of_row ha hrow).bind ?_
  rintro _ t₁ ⟨rfl, hrel₁⟩
  have hpath₁ := Course.path_of_upkept hrel₁
  have ha₁ := ha.of_upkeep hpath₁
  have hrow₁ := ha.exact.row_of_upkeep ha.sound hpath₁ hrow
  refine .look_bind ?_
  rw [(ha₁.sound.inOrder k).key x hrow₁]
  refine Answers.bind (P := fun a t' => a = x.address ∧ Course.upkept.rel t₁ t') ?_ ?_
  · refine answers_current ha₁ ((ha₁.sound.inOrder k).live x hrow₁) fun t₂ hr => Ends.look ⟨_, rfl, ?_, hr.upkept⟩
    exact ((hr.path.sound ha₁.sound).inOrder k).address x (ha₁.exact.row_of_upkeep ha₁.sound hr.path hrow₁)
  · rintro _ t₂ ⟨rfl, hrel₂⟩
    refine (answers_emit hn t₂ _ _ _).imp fun _ t' hr => ?_
    exact (Table.Reports.of_upkept (hrel₁.trans hrel₂)).trans hr

/-- The borrowers are told of one after the other. The induction is on the handles, and each of them
still has its row when those before it have been told of. -/
theorem answers_announceBorrowers (hn : notify.Records) {ks : List HandleId} {xs : List Row}
    (hks : t.HaveRows ks xs) (old : Row → String) :
    Answers t ((ks.zip (xs.map old)).forM fun b => announceBorrower notify b.1 b.2) fun _ t' =>
      t.Reports (xs.map fun x => ⟨.stored x.id, x.address, .renamed (old x) (t.shown x)⟩) [] t' := by
  induction ks generalizing t xs with
  | nil =>
    cases hks
    exact .pure (.refl t)
  | cons k ks ih =>
    cases hks with
    | @cons _ x _ xs hrow hks =>
      rw [List.map_cons, List.zip_cons_cons, List.forM_eq_forM, List.forM_cons]
      refine (answers_announceBorrower ha hn hrow (old x)).bind fun _ t₁ hr₁ => ?_
      refine (ih (ha.of_upkeep hr₁.path) (ha.rows_of_upkeep hr₁.path hks)).imp fun _ t' hr => ?_
      rw [Table.shown_eq hr₁.path.sameFrame hr₁.rows_eq] at hr
      exact hr₁.trans hr

/-- A symbol and its borrowers are announced. The symbol comes first, under the key and the address
that it had when the rename began, and its borrowers after it. -/
theorem answers_announceName (hn : notify.Records) (hrow : (t.handle h).row = some x) (key : Key) (a : Address)
    (oldName : String) {ks : List HandleId} {xs : List Row}
    (hks : t.HaveRows ks xs) (old : Row → String) :
    Answers t (announceName notify h key a oldName (ks.zip (xs.map old))) fun _ t' => ∃ ns,
      t.Reports (⟨key, a, .renamed oldName (t.shown x)⟩ ::
        xs.map fun x => ⟨.stored x.id, x.address, .renamed (old x) (t.shown x)⟩) ns t' := by
  refine (answers_nameOf ha.sound.backend ha.serving.works h).bind ?_
  rw [Table.shownFor_of_row hrow]
  rintro _ t ⟨rfl, rfl⟩
  have hr₁ := Table.Reports.record t ⟨a, key, .renamed, oldName ++ " to " ++ t.shown x⟩
  refine Ends.change_bind ((answers_emit hn _ _ _ _).bind fun _ t₂ hr₂ => ?_)
  have hr := hr₁.trans hr₂
  refine (answers_announceBorrowers (ha.of_upkeep hr.path) hn (ha.rows_of_upkeep hr.path hks) old).imp
    fun _ t' hr₃ => ?_
  rw [Table.shown_eq hr.path.sameFrame hr.rows_eq] at hr₃
  exact ⟨_, hr.trans hr₃⟩

end

/-! ## Renaming -/

/-- The name of a symbol stays the same if it was not to change. Whether it has a name of its own or
borrows one, what it is read off from is the same: the plan keeps the name and the link, and no
other row has changed. -/
theorem Rename.Changes.shown_apply {plan : Rename} (hc : Rename.Changes plan t (t.handle h))
    (hrow : (t.handle h).row = some r) (hrules : t.rules.LendsByLink) (hstays : plan.renames = false)
    (hframe : t.SameFrame t') (hrows : ∀ id, id ≠ r.id → t'.row? id = t.row? id) :
    t'.shown (plan.apply r) = t.shown r := by
  have hold : plan.oldName = t.shown r := hc.oldName.trans (Table.shownFor_of_row hrow)
  have hderived (t : Table) : t.derivedName (plan.apply r) = t.derivedName r := rfl
  have hprovenance := provenance_apply plan r
  have hstays : ¬ plan.renames = true := Bool.eq_false_iff.1 hstays
  by_cases hdefault : plan.provenance = .default
  · have hunnamed : r.provenance = .default := by
      by_contra hnamed
      refine hstays ((hc.unnamed hdefault).2 ?_)
      rw [Handle.provenance, hrow]
      exact hnamed
    rw [hdefault] at hprovenance
    rw [← Table.shown_congr_of_ne hframe hrows]
    refine Table.shown_eq_of_unnamed rfl hunnamed hprovenance ?_ (hderived t')
    rw [hframe.rules]
    exact hrules.congr _ _ rfl rfl (hprovenance.trans hunnamed.symm) rfl
  · have hname : plan.oldName = plan.name := by
      by_contra hne
      exact hstays ((hc.named hdefault).2 hne)
    by_cases hdepth : t.settings.maxDepth = 0
    · rw [Table.shown, Table.shown, hframe.settings, hdepth]
      exact (hderived t').trans (Table.derivedName_congr hframe.rules r)
    · rw [← hold, hname]
      exact Table.shown_of_named (hframe.settings ▸ hdepth) (hprovenance ▸ hdefault)

/-- Once the row of a symbol is written, the symbol and its dependents are announced. If the plan
renames, everybody is told. If it only moves the symbol, nobody is told of a name, and none has
changed. -/
theorem answers_announce_retitled (hn : notify.Records) (hs : t.Sound) (hrules : t.rules.LendsByLink)
    (hframe : t.SameFrame t₁) (hlog : t₁.log = t.log) {plan : Rename}
    (hreplaces : t.Replaces (plan.apply r) t₁) (hplan : Rename.Changes plan t (t.handle h))
    (hrow : (t.handle h).row = some r) (ha : t₁.Answering) (hrow₁ : (t₁.handle h).row = some (plan.apply r))
    {ks : List HandleId} (hks : t₁.HaveRows ks (t.dependents r)) :
    Answers t₁ (do
        if plan.moves then
          emit notify (t.handle h).key (t.handle h).address (.scopeChanged plan.oldScope plan.scope)
        if plan.renames then
          announceName notify h (t.handle h).key (t.handle h).address plan.oldName
            (ks.zip ((t.dependents r).map t.shown)))
      fun _ t' => t'.Answering ∧ t.Retitled r (plan.apply r) t' := by
  rw [(hs.inOrder h).key r hrow, (hs.inOrder h).address r hrow, hplan.oldName, Table.shownFor_of_row hrow]
  -- the scope may have been told before, which is no renaming
  have hname {es : List Event} (hquiet : es.filter (·.change.sort = .renamed) = []) (t₂ : Table)
      (hr : t₁.Reports es [] t₂) :
      Answers t₂ (if plan.renames then announceName notify h (.stored r.id) r.address (t.shown r)
          (ks.zip ((t.dependents r).map t.shown)) else pure ())
        fun _ t' => t'.Answering ∧ t.Retitled r (plan.apply r) t' := by
    have ha₂ := ha.of_upkeep hr.path
    cases hrenames : plan.renames with
    | false =>
      rw [if_neg Bool.false_ne_true]
      refine .pure ⟨ha₂, .of_reports hs hrules hreplaces rfl hframe hlog hr (.inl ⟨hquiet, ?_⟩)⟩
      exact hplan.shown_apply hrow hrules hrenames hframe fun id hne => (hreplaces id).trans (if_neg hne)
    | true =>
      rw [if_pos rfl]
      refine (answers_announceName ha₂ hn (ha.exact.row_of_upkeep ha.sound hr.path hrow₁) _ _ _
        (ha.rows_of_upkeep hr.path hks) t.shown).imp ?_
      rintro _ t' ⟨ns, hr₂⟩
      refine ⟨ha₂.of_upkeep hr₂.path, .of_reports hs hrules hreplaces rfl hframe hlog (hr.trans hr₂) (.inr ?_)⟩
      rw [Table.shown_eq hr.path.sameFrame hr.rows_eq, List.filter_append, hquiet, List.nil_append]
      exact Table.filter_retitlings t t₁ r (plan.apply r) (t.dependents r)
  dsimp only
  split
  · refine (answers_emit hn t₁ _ _ _).bind fun _ t₂ hr => hname ?_ t₂ hr
    rfl
  · exact hname List.filter_nil t₁ (.refl t₁)

end Action

namespace Table

/-- A stored symbol of a table that answers, in which rows stand for kinds and names are lent by
links. -/
structure Hosts (t : Table) (h : HandleId) (r : Row) : Prop where
  answering : t.Answering
  kinds : ∀ x ∈ t.rows, ∃ k, x.kind? = some k
  lends : t.rules.LendsByLink
  row : (t.handle h).row = some r

/-- A stored symbol of an answering table stays one while handles are kept up. The rows and the
rules stay, and so does the copy of the row, since the table is exact. -/
theorem Hosts.of_upkeep (hh : t.Hosts h r) (hpath : Path upkeep t t') : t'.Hosts h r where
  answering := hh.answering.of_upkeep hpath
  kinds := by
    have hrows : t'.rows = t.rows := hpath.rows_eq_of_upkeep
    exact hrows ▸ hh.kinds
  lends := hpath.sameFrame.rules ▸ hh.lends
  row := hh.answering.exact.row_of_upkeep hh.answering.sound hpath hh.row

/-- Unless it is refused, a rename is announced. -/
def Retitles {α : Type} (t : Table) (r : Row) (answer : Except Fault α) (t' : Table) : Prop :=
  (∃ x, answer = .ok x) → t'.Answering ∧ ∃ r', t.Retitled r r' t'

/-- Of a refused rename nothing is promised. -/
theorem Retitles.of_error {α : Type} {fault : Fault} : t.Retitles r (.error fault : Except Fault α) t' := by
  rintro ⟨_, hok⟩
  cases hok

end Table

namespace Action

variable (hh : t.Hosts h r)

include hh

/-- A rename of a stored symbol is announced if it is so from where the handle was refreshed. A
refresh tells nothing, so nothing is added before what is told of the rename. -/
theorem ends_current_retitles {a : Action σ Unit}
    (ha : ∀ t₁, t₁.Hosts h r → Ends t₁ a (t₁.Retitles r)) : Ends t (current h a) (t.Retitles r) := by
  refine .current hh.answering.sound h (fun _ => .of_error) (fun _ _ _ => .of_error) fun t₁ hr => ?_
  refine (ha t₁ (hh.of_upkeep hr.path)).imp fun _ t' hretitles hok => ?_
  obtain ⟨hanswering, r', hretitled⟩ := hretitles hok
  exact ⟨hanswering, r', hretitled.after hr.upkept⟩

/-- A rename of a stored symbol that is carried out is announced. The names of the dependents are
gathered before the row is written, and told afterwards together with those that are shown then. -/
theorem ends_carryOut_retitles (hn : notify.Records) {plan : Rename}
    (hplan : Rename.Changes plan t (t.handle h)) : Ends t (carryOut notify h plan) (t.Retitles r) := by
  have ha := hh.answering
  refine .look_bind ((answers_borrowers ha hh.kinds hh.row).ends_bind ?_)
  rintro ks t₁ ⟨hks, hrel₁⟩
  have hpath₁ := Course.path_of_upkept hrel₁
  refine (answers_mapM_currentName (ha.of_upkeep hpath₁) hks).ends_bind ?_
  rintro _ t₂ ⟨rfl, hrel₂⟩
  have hks₂ := (ha.of_upkeep hpath₁).rows_of_upkeep (Course.path_of_upkept hrel₂) hks
  have hpath := Course.path_of_upkept (hrel₁.trans hrel₂)
  have hlog := Course.log_of_upkept (hrel₁.trans hrel₂)
  have ha₂ := ha.of_upkeep hpath
  have hrow₂ := ha.exact.row_of_upkeep ha.sound hpath hh.row
  have hne : ∀ x ∈ t.dependents r, x.id ≠ r.id := fun x hx heq =>
    hh.lends.ne_self x (heq ▸ (Table.mem_dependents hx).2)
  rw [Table.shown_eq hpath₁.sameFrame hpath₁.rows_eq_of_upkeep]
  refine .seq (ends_write ha₂.sound h (fun x b hx hputs => .ok ?_) fun _ => .of_error)
  obtain rfl : r = x := Option.some.inj (hrow₂.symm.trans hx)
  have hid : (plan.apply r).id = r.id := rfl
  have htag : (plan.apply r).tag = r.tag := rfl
  have hreplaces : t.Replaces (plan.apply r) (t₂.written h (plan.apply r) b) := by
    intro i
    rw [← Table.row?_congr (t := t) hpath.rows_eq_of_upkeep]
    exact Table.row?_puts ha₂.sound.backend hputs i
  have hframe : t.SameFrame (t₂.written h (plan.apply r) b) :=
    ⟨hpath.sameFrame.rules, hpath.sameFrame.settings, hpath.sameFrame.closed⟩
  refine Ends.imp (answers_announce_retitled hn ha.sound hh.lends hframe hlog hreplaces hplan hh.row
    (ha₂.written hx hid htag hputs) (ha₂.row_written hx _ _) (ha₂.rows_written hx hid htag hputs hne hks₂)) ?_
  rintro _ t' ⟨_, rfl, hdone, hretitled⟩ -
  exact ⟨hdone, _, hretitled⟩

/-- A rename of a stored symbol is announced, unless it is refused. If nothing was planned, nothing
is announced, for no name changes. -/
theorem ends_rename_retitles (hn : notify.Records) (name : String) (scope : Scope) (p : Provenance) :
    Ends t (rename notify h name scope p) (t.Retitles r) := by
  refine ends_current_retitles hh fun t₁ hh₁ => ?_
  have hs₁ := hh₁.answering.sound
  refine (tells_planRename_changes hs₁ hh₁.answering.serving.works h name scope p).ends_bind
    (fun plan? hplan => ?_) fun _ => .of_error
  split
  · refine .pure fun _ => ⟨hh₁.answering, r, ?_⟩
    have hget := (hh₁.answering.exact.mirrors h).row r hh₁.row
    exact .of_reports hs₁ hh₁.lends (.refl hget) rfl ⟨rfl, rfl, rfl⟩ rfl (.refl t₁) (.inl ⟨rfl, rfl⟩)
  · rename_i plan
    refine .look_bind ?_
    rw [Handle.isDerived_of_row hh₁.row, if_neg Bool.false_ne_true]
    exact ends_carryOut_retitles hh₁ hn (hplan plan rfl)

/-- To set a name is announced as the rename is. -/
theorem ends_setName_retitles (hn : notify.Records) (name : String) (p : Provenance) :
    Ends t (setName notify h name p) (t.Retitles r) :=
  ends_current_retitles hh fun _ hh₁ => .look_bind (ends_rename_retitles hh₁ hn name _ p)

/-- To set a scope is announced as the rename is, though the name shown stays the same. -/
theorem ends_setScope_retitles (hn : notify.Records) (scope : Scope) :
    Ends t (setScope notify h scope) (t.Retitles r) :=
  ends_current_retitles hh fun _ hh₁ => (reads_nameOf h).ends_bind
    (fun name => .look_bind (ends_rename_retitles hh₁ hn name scope _)) fun _ => .of_error

end Action

/-- The edit gives a symbol a name or a scope. -/
def Edit.Renames : Edit → Prop
  | .rename .. | .setName .. | .setScope _ => True
  | _ => False

namespace Action

/-- What holds if an action is not refused holds so of what is made of its answer. A refusal of the
whole is one of the action. -/
theorem Ends.granted_map {α β : Type} {a : Action σ α} {f : α → β} {P : Table → Prop}
    (ha : Ends t a fun answer t' => (∃ x, answer = .ok x) → P t') :
    Ends t (f <$> a) fun answer t' => (∃ y, answer = .ok y) → P t' := by
  refine .map ha (fun x _ hx _ => hx ⟨x, rfl⟩) ?_
  rintro _ _ - ⟨_, hok⟩
  cases hok

/-- Unless it is refused, a rename of a stored symbol is announced. Three of the edits rename, and
each of them has its lemma. The others are excluded by `he`. -/
theorem ends_perform_retitles (hh : t.Hosts h r) (hn : notify.Records) {e : Edit} (he : e.Renames) :
    Ends t ((Move.edit h e).action notify) (t.Retitles r) := by
  refine Ends.granted_map ?_
  cases e with
  | rename name scope p => exact Ends.granted_map (ends_rename_retitles hh hn name scope p)
  | setName name p => exact Ends.granted_map (ends_setName_retitles hh hn name p)
  | setScope scope => exact Ends.granted_map (ends_setScope_retitles hh hn scope)
  | _ => exact he.elim

/-- A symbol is not renamed whose handle is marked deleted. So what is said of renames that are
answered is said of symbols that are there. The refresh comes first in all of them and is what
refuses. -/
theorem ends_perform_live (ht : t.Sound) {e : Edit} (he : e.Renames) :
    Ends t ((Move.edit h e).action notify) fun answer _ =>
      (∃ x, answer = .ok x) → (t.handle h).deleted = false := by
  have hcurrent {a : Action σ Unit} : Ends t (current h a) fun answer _ =>
      (∃ x, answer = .ok x) → (t.handle h).deleted = false := by
    refine .current ht h ?_ ?_ fun _ hr _ _ _ => hr.live
    · rintro _ ⟨_, hok⟩
      cases hok
    · rintro _ _ _ ⟨_, hok⟩
      cases hok
  refine Ends.granted_map ?_
  cases e with
  | rename | setName | setScope => exact Ends.granted_map hcurrent
  | _ => exact he.elim

end Action

/-! ## Runs -/

/-- Symbols that are there say the names that are shown: a stored one that of its row, and a derived
one that of its address. -/
structure Situated.SaysNames (rules : Rules) (s : Situated σ) : Prop where
  stored : ∀ k id, ((isValid k).run s).1 = .ok true → (s.table.handle k).key = .stored id →
    ∃ name, s.table.shownAt id = some name ∧ ((currentName k).run s).1 = .ok name
  derived : ∀ k a, ((isValid k).run s).1 = .ok true → (s.table.handle k).key = .derived a →
    ((currentName k).run s).1 = .ok (rules.derivedName .label a 0)

/-- Where calls are answered, symbols that are there say the names that they show. A handle of a
stored symbol that is there has the row that is stored, and a derived one is named by its
address. -/
theorem Table.Answering.saysNames {s : Situated σ} (ha : s.table.Answering) : s.SaysNames s.table.rules := by
  have hanswer {k : HandleId} (hlive : (s.table.handle k).deleted = false) :
      ((currentName k).run s).1 = .ok (s.table.shownFor (s.table.handle k)) := by
    obtain ⟨_, _, hrun, rfl, -⟩ := (answers_currentName ha hlive).exists_run
    exact congrArg Prod.fst hrun
  refine ⟨fun k id hvalid hkey => ?_, fun k a hvalid hkey => ?_⟩
  · have hlive := ends_isValid ha.sound k s rfl hvalid
    obtain ⟨x, hrow, rfl⟩ := (ha.sound.inOrder k).exists_row hkey hlive
    rw [hanswer hlive, Table.shownFor_of_row hrow, Table.shownAt, (ha.exact.mirrors k).row x hrow]
    exact ⟨_, rfl, rfl⟩
  · have hlive := ends_isValid ha.sound k s rfl hvalid
    have hrow : (s.table.handle k).row = none := by
      cases hrow : (s.table.handle k).row with
      | none => rfl
      | some x => cases hkey.symm.trans ((ha.sound.inOrder k).key x hrow)
    obtain ⟨hkey', hkind⟩ := (ha.sound.inOrder k).derived hlive hrow
    rw [hanswer hlive, Table.shownFor, hrow, hkind, Key.derived.inj (hkey'.symm.trans hkey)]

variable {s₀ s : Situated σ}

/-- Rows of a run through the table stand for kinds. Moves that go through the table check the kind
of a symbol before it is stored, and nobody else puts rows. -/
theorem Runs.kinded {rules : Rules} {allowed : Bool → Table → Move → Prop} (hnew : s₀.table.IsNew rules)
    (hrun : Runs allowed false s₀ s) (hallowed : ∀ nested t m, allowed nested t m → m.goesThrough) :
    s.table.Kinded := by
  have hpath : Path (· ≠ .intrude) s₀.table s.table := by
    refine hrun.path nofun (fun nested t m hm => ?_) hnew.sound
    exact .of_goesThrough (hallowed nested t m hm) nofun (fun _ _ => nofun) (fun _ _ _ _ => nofun)
      fun _ _ _ _ _ => nofun
  refine Table.Kinded.of_path ⟨hnew.sound, hnew.closed_eq, ?_⟩ hpath fun hintrude => hintrude rfl
  simp [hnew.rows_eq]

/-- **Renames are announced, with whoever borrows directly.** Whatever was done through a table
since it was opened empty: where the store works and the listener only records, every symbol says
its name before and after a rename of a stored symbol, and no name changes but its own and those
that are borrowed from it, directly or through others. If its own name changes, it is told under
which names it was and is shown, and the same of each unnamed function that borrows from it
directly, once of each. Nobody else is told to be renamed; if its own name does not change, it may
be that nobody is told at all. This takes that names are lent by links alone, that no derived symbol
was moved to the address of another one, and that there are ids left. -/
theorem Runs.renames_are_told {rules : Rules} (hrules : rules.LendsByLink) (hnew : s₀.table.IsNew rules)
    (hrun : Runs (fun _ t m => m.DisplacesNone t) false s₀ s) (hlt : s.table.drawn < UInt64.size - 1)
    (hworks : s.table.store.Works) (hn : notify.Records) (hkey : (s.table.handle h).key = .stored id) {e : Edit}
    (he : e.Renames) (hok : (((Move.edit h e).action notify).run s).1 = .ok ()) :
    let s' := (((Move.edit h e).action notify).run s).2
    s.SaysNames rules ∧ s'.SaysNames rules ∧
      ∃ r r', s.table.row? id = some r ∧ s.table.Retitled r r' s'.table := by
  intro s'
  have hs := hrun.sound_of_displacesNone hnew
  have ha : s.table.Answering := ⟨hs, hrun.exact_of_displacesNone hnew hlt, hworks, hrun.opened hnew⟩
  have hrules_eq : s.table.rules = rules := (hrun.exacting hnew).path.sameFrame.rules.trans hnew.rules_eq
  obtain ⟨r, hrow, rfl⟩ := (hs.inOrder h).exists_row hkey (ends_perform_live hs he s rfl ⟨_, hok⟩)
  have hkinds := (hrun.kinded hnew fun _ _ _ hm => hm.goesThrough).kinds
  obtain ⟨ha', r', hretitled⟩ :=
    ends_perform_retitles ⟨ha, hkinds, hrules_eq.symm ▸ hrules, hrow⟩ hn he s rfl ⟨_, hok⟩
  have hrules_eq' := hretitled.frame.rules.trans hrules_eq
  exact ⟨hrules_eq ▸ ha.saysNames, hrules_eq' ▸ ha'.saysNames, r, r', (ha.exact.mirrors h).row r hrow, hretitled⟩

/-- Of two functions that borrow its name it is told when a function gets another one. A label that
it has nothing to do with is not told of. -/
theorem Runs.renames_are_told_of_borrowers :
    let s₀ : Situated Unit := ⟨.empty default .standard, (), 0⟩
    let go (s : Situated Unit) (m : Move) := ((m.action Listener.recorder).run s).2
    let borrower (a : Address) : Move := .create ⟨"", .function, a, .global, .default, 1, 0, none⟩
    let s₁ := go s₀ (.create ⟨"f", .function, .ram 16, .global, .userDefined, 0, 0, none⟩)
    let s₂ := go (go s₁ (borrower (.ram 32))) (borrower (.ram 48))
    let s := go s₂ (.create ⟨"a", .label, .ram 64, .global, .userDefined, 0, 0, none⟩)
    let e : Edit := .setName "h" .userDefined
    let s' := (((Move.edit 0 e).action Listener.recorder).run s).2
    Rules.standard.LendsByLink ∧ s₀.table.IsNew .standard ∧
      Runs (fun _ t m => m.DisplacesNone t) false s₀ s ∧ s.table.drawn < UInt64.size - 1 ∧
      s.table.store.Works ∧ (s.table.handle 0).key = .stored ⟨1, by decide⟩ ∧
      (((Move.edit 0 e).action Listener.recorder).run s).1 = .ok () ∧
      (s'.table.log.drop s.table.log.length).map (fun x => (x.address, x.change)) =
        [.ram 16, .ram 32, .ram 48].map (·, .renamed "f" "h") ∧
      ∃ r r', s.table.row? ⟨1, by decide⟩ = some r ∧ s.table.Retitled r r' s'.table := by
  intro s₀ go borrower s₁ s₂ s e s'
  have hrules : Rules.standard.LendsByLink := Rules.lendsByLink_ofCapabilities _
  have hnew : s₀.table.IsNew .standard := .memory _ _ _
  have hcreates (draft : Draft) (t : Table) : (Move.create draft).DisplacesNone t :=
    .of_ne_relocate trivial nofun
  have hchronicle : Chronicle (fun _ t m => m.DisplacesNone t) false s₀ s :=
    .move (.move (.move (.move .refl (hcreates _ _) Chronicle.recorder) (hcreates _ _) Chronicle.recorder)
      (hcreates _ _) Chronicle.recorder) (hcreates _ _) Chronicle.recorder
  have hrun := hchronicle.runs
  have hworks := hchronicle.works hnew.sound fun _ _ _ => rfl
  have hlt : s.table.drawn < UInt64.size - 1 := by decide +kernel
  have hkey : (s.table.handle 0).key = .stored ⟨1, by decide⟩ := by decide +kernel
  have hok : (((Move.edit 0 e).action Listener.recorder).run s).1 = .ok () := by decide +kernel
  have hlog : (s'.table.log.drop s.table.log.length).map (fun x => (x.address, x.change)) =
      [.ram 16, .ram 32, .ram 48].map (·, .renamed "f" "h") := by decide +kernel
  obtain ⟨-, -, htold⟩ := Runs.renames_are_told hrules hnew hrun hlt hworks Listener.records_recorder hkey
    (e := e) trivial hok
  exact ⟨hrules, hnew, hrun, hlt, hworks, hkey, hok, hlog, htold⟩

/-- A function borrows the name of another one, which borrows it from a third. When the third gets
another name, all three show it, and of the first nobody is told. -/
theorem Runs.borrowed_names_change_silently :
    let s₀ : Situated Unit := ⟨.empty default .standard, (), 0⟩
    let go (s : Situated Unit) (m : Move) := ((m.action Listener.recorder).run s).2
    let borrower (a : Address) (lender : Int64) : Move :=
      .create ⟨"", .function, a, .global, .default, lender, 0, none⟩
    let s₁ := go s₀ (.create ⟨"f", .function, .ram 16, .global, .userDefined, 0, 0, none⟩)
    let s := go (go s₁ (borrower (.ram 32) 1)) (borrower (.ram 48) 2)
    let m : Move := .edit 0 (.setName "h" .userDefined)
    let s' := go s m
    s₀.table.IsNew .standard ∧ Runs (fun _ t m => m.DisplacesNone t) false s₀ s ∧ s.table.store.Works ∧
      ((m.action Listener.recorder).run s).1 = .ok () ∧
      (s.table.handle 2).key = .stored ⟨3, by decide⟩ ∧
      ((currentName 2).run s).1 = .ok "f" ∧ ((currentName 2).run s').1 = .ok "h" ∧
      ∀ x ∈ s'.table.log.drop s.table.log.length, x.key ≠ .stored ⟨3, by decide⟩ := by
  intro s₀ go borrower s₁ s m s'
  have hnew : s₀.table.IsNew .standard := .memory _ _ _
  have hcreates (draft : Draft) (t : Table) : (Move.create draft).DisplacesNone t :=
    .of_ne_relocate trivial nofun
  have hchronicle : Chronicle (fun _ t m => m.DisplacesNone t) false s₀ s :=
    .move (.move (.move .refl (hcreates _ _) Chronicle.recorder) (hcreates _ _) Chronicle.recorder)
      (hcreates _ _) Chronicle.recorder
  have hworks := hchronicle.works hnew.sound fun _ _ _ => rfl
  exact ⟨hnew, hchronicle.runs, hworks, by decide +kernel, by decide +kernel, by decide +kernel,
    by decide +kernel, by decide +kernel⟩

end SymbolTable
