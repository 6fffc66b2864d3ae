import SymbolTable.Proofs.Coverage
import SymbolTable.Proofs.TornDeletions

/-!
# Inherited references

A reference belongs to a symbol at the address to which it leads, or to the primary symbol there,
whichever that is. When the row of its owner is taken out, the primary symbol gets it
(`Reference.inherited`). Who that is may change several times in one deletion, but that does not
matter to the references: it is enough who is designated in the end
(`Table.Bequeaths.exists_holder`), and that somebody is if there is a symbol left that may be.

So a deletion is followed along a course on which addresses stay covered and rows leave their
references (`Course.bequeathing`). Before and after it, the symbols that are listed for an address
share out the references to it (`Situated.Distributes`), and from the first listing to the second
one none of them is lost (`Undisturbed.deletions_lose_no_reference`).
-/

namespace SymbolTable

open SymbolTable.Action
open Table (Path upkeep)

variable {σ : Type} {t t₁ t' : Table} {notify : Listener σ} {h : HandleId} {a : Address} {id : SymbolId}
  {gone gone' : List Row} {r : Row} {x : Reference}

/-! ## Whose references they are -/

/-- The symbol with this id holds a reference to the address: it is the owner, or it is designated
there and the reference belongs to whoever is. -/
def Table.Holds (t : Table) (a : Address) (x : Reference) (id : SymbolId) : Prop :=
  x.owner = .symbol id ∨ x.owner = .primary ∧ t.facts.primaryAt a = some id

/-- No other symbol holds what one holds. A reference is held by its owner, or by the primary symbol
if it has none. -/
theorem Table.Holds.iff_eq (hholds : t.Holds a x id) (j : SymbolId) : t.Holds a x j ↔ j = id := by
  rcases hholds with howner | ⟨howner, hprimary⟩
  · rw [Holds, howner]
    simp [eq_comm]
  · rw [Holds, howner, hprimary]
    simp [eq_comm]

/-- If the row of its owner was taken out at the address, a reference belongs to the primary symbol
from then on. -/
def Reference.inherited (gone : List Row) (a : Address) (x : Reference) : Reference :=
  if ∃ r ∈ gone, r.address = a ∧ x.owner = .symbol r.id then { x with owner := .primary } else x

namespace Reference

/-- To be inherited is to stay what it is or to go to the primary symbol. Nothing else about a
reference changes. -/
theorem inherited_or (gone : List Row) (a : Address) (x : Reference) :
    x.inherited gone a = x ∨ x.inherited gone a = { x with owner := .primary } := by
  unfold inherited
  split
  · exact .inr rfl
  · exact .inl rfl

/-- If nobody is gone, nothing is inherited. -/
theorem inherited_nil (a : Address) (x : Reference) : x.inherited [] a = x :=
  if_neg fun ⟨_, hr, _⟩ => nomatch hr

/-- What belongs to the primary symbol goes on to do so. -/
theorem inherited_of_primary (howner : x.owner = .primary) : x.inherited gone a = x := by
  refine if_neg ?_
  rintro ⟨r, -, -, hr⟩
  cases howner.symm.trans hr

/-- Rows are taken out one after the other. So what is inherited can be followed along a deletion,
from one departure to the next. -/
theorem inherited_cons (r : Row) (gone : List Row) (a : Address) (x : Reference) :
    x.inherited (r :: gone) a =
      (if r.address = a then References.handOver r.id .primary x else x).inherited gone a := by
  by_cases hr : r.address = a ∧ x.owner = .symbol r.id
  · have hprimary : inherited gone a { x with owner := .primary } = { x with owner := .primary } :=
      inherited_of_primary rfl
    rw [if_pos hr.1, References.handOver, if_pos hr.2, hprimary]
    exact if_pos ⟨r, .head _, hr⟩
  · have hstays : (if r.address = a then References.handOver r.id .primary x else x) = x := by
      split
      · rename_i ha
        exact if_neg fun howner => hr ⟨ha, howner⟩
      · rfl
    rw [hstays]
    unfold inherited
    simp [hr]

end Reference

/-- The references of rows that were taken out are left to the primary symbols at their
addresses. -/
def References.left (refs : References) (gone : List Row) : References :=
  gone.foldl (fun x r => (x.retarget r.address r.id .primary).2) refs

/-- The references to an address after rows were taken out there and elsewhere. What was taken out
elsewhere has no part in it, even if it owned some of them. The induction is on the rows that are
gone. -/
theorem References.into_left (refs : References) (gone : List Row) (a : Address) :
    (refs.left gone).into a = (refs.into a).map (Reference.inherited gone a) := by
  unfold left
  induction gone generalizing refs with
  | nil => exact (List.map_id'' (Reference.inherited_nil a) _).symm
  | cons r gone ih =>
    rw [List.foldl_cons, ih, retarget, into_withInto]
    split
    · rename_i ha
      subst ha
      rw [List.map_map]
      refine List.map_congr_left fun x _ => ?_
      rw [Reference.inherited_cons, if_pos rfl]
      rfl
    · rename_i ha
      refine List.map_congr_left fun x _ => ?_
      rw [Reference.inherited_cons, if_neg fun heq => ha heq.symm]

/-! ## Rows that leave references -/

/-- Rows were taken out, and their references were left to the primary symbols at their
addresses. -/
structure Table.Bequeaths (t : Table) (gone : List Row) (t' : Table) : Prop where
  stored : ∀ r ∈ gone, r ∈ t.rows
  mem_rows : ∀ x, x ∈ t'.rows ↔ x ∈ t.rows ∧ x ∉ gone
  references : t'.references = t.references.left gone

namespace Table.Bequeaths

/-- If neither rows nor references changed, nothing was left to anybody. This is the account of a
removal that did not take place. -/
theorem nothing (hrows : t'.rows = t.rows) (hreferences : t'.references = t.references) :
    t.Bequeaths [] t' where
  stored _ hr := nomatch hr
  mem_rows x := by simp [hrows]
  references := hreferences

/-- What is left in two stretches is left over both, to whoever is primary at the end. The rows that
were gone first are not there to be taken out another time. -/
theorem trans (h : t.Bequeaths gone t₁) (h' : t₁.Bequeaths gone' t') : t.Bequeaths (gone ++ gone') t' where
  stored r hr := (List.mem_append.1 hr).elim (h.stored r) fun hr => ((h.mem_rows r).1 (h'.stored r hr)).1
  mem_rows x := by
    rw [h'.mem_rows, h.mem_rows, List.mem_append, not_or, and_assoc]
  references := by
    rw [h'.references, h.references, References.left, References.left, References.left, List.foldl_append]

/-- A row that was stored is taken out, if it is still there. It comes after those that were taken
out before it, and its references at its address are handed over when it is buried. -/
theorem departs {t₂ : Table} {name : String} (hbefore : t.Bequeaths gone t₁) (hs : t.Sound) (hr : r ∈ t.rows)
    (hremoval : t₁.Removal h r t₂) : t.Bequeaths (gone ++ [r]) (t₂.bury ⟨r, name⟩) := by
  obtain ⟨b, hremoves, hbeside⟩ := hremoval.exists_release
  refine ⟨fun x hx => ?_, fun x => ?_, ?_⟩
  · rcases List.mem_append.1 hx with hx | hx
    · exact hbefore.stored x hx
    · exact List.mem_singleton.1 hx ▸ hr
  · have hrows : x ∈ (t₂.bury ⟨r, name⟩).rows ↔ x ∈ t₁.rows ∧ x.id ≠ r.id := by
      rw [show (t₂.bury ⟨r, name⟩).rows = b.rows from hbeside.rows_eq]
      exact hremoves.mem_rows x
    have hid : x ∈ t.rows → (x.id ≠ r.id ↔ x ≠ r) := fun hx =>
      not_congr ⟨fun heq => hs.backend.ascending_rows.eq_of_id_eq hx hr heq, fun heq => heq ▸ rfl⟩
    rw [hrows, hbefore.mem_rows, List.mem_append, List.mem_singleton, not_or, and_assoc]
    exact and_congr_right fun hx => and_congr_right fun _ => hid hx
  · have hreferences : t₂.references = t.references.left gone := by
      rw [← hbefore.references]
      cases hremoval <;> rfl
    show (t₂.references.retarget r.address r.id .primary).2 = _
    rw [hreferences, References.left, References.left, List.foldl_append]
    rfl

/-- Once its owner is gone, a reference is held by the symbol that is designated then. If the owner
is still there, it is the holder. Otherwise the reference belongs to the primary symbol now, of
which there is one since the address is served. -/
theorem exists_holder (h : t.Bequeaths gone t') (hs : t.Sound) (hd : t'.Designated) (hserved : t'.Served a)
    (hget : t.row? id = some r) (haddress : r.address = a) (hholds : t.Holds a x id) :
    ∃ p ∈ t'.rows, p.address = a ∧ ∀ j, t'.Holds a (x.inherited gone a) j ↔ j = p.id := by
  obtain ⟨k, hk⟩ := hserved
  have hprimary {y : Reference} (hy : y.owner = .primary) :
      ∃ p ∈ t'.rows, p.address = a ∧ ∀ j, t'.Holds a y j ↔ j = p.id := by
    obtain ⟨p, -, hgetp, haddress, -⟩ := hd a k hk
    exact ⟨p, mem_of_row? hgetp, haddress, Holds.iff_eq (.inr ⟨hy, id_of_row? hgetp ▸ hk⟩)⟩
  rcases hholds with howner | ⟨howner, -⟩
  · by_cases hgone : r ∈ gone
    · have hinherited : x.inherited gone a = { x with owner := .primary } :=
        if_pos ⟨r, hgone, haddress, by rw [howner, id_of_row? hget]⟩
      rw [hinherited]
      exact hprimary rfl
    · have hkept : x.inherited gone a = x := by
        refine if_neg ?_
        rintro ⟨p, hp, -, hdeparted⟩
        cases howner.symm.trans hdeparted
        cases hget.symm.trans (row?_id hs.backend (h.stored p hp))
        exact hgone hp
      rw [hkept]
      exact ⟨r, (h.mem_rows r).2 ⟨mem_of_row? hget, hgone⟩, haddress,
        Holds.iff_eq (.inl (id_of_row? hget ▸ howner))⟩
  · rw [Reference.inherited_of_primary howner]
    exact hprimary howner

end Table.Bequeaths

/-! ## Deletions -/

/-- Where the store works, an address stays covered, and rows that are taken out leave their
references. -/
def Table.KeepsReferences (a : Address) (t t' : Table) : Prop :=
  t.Sound → t.Exact → t.store.Works → (t.CoversAt a → t'.CoversAt a) ∧ ∃ gone, t.Bequeaths gone t'

/-- The course on which rows are taken out and leave their references. -/
def Course.bequeathing (a : Address) : Course where
  rel t t' := Path (Eq .remove) t t' ∧ t.KeepsReferences a t'
  refl _ := ⟨.refl, fun _ _ _ => ⟨fun hc => hc, [], .nothing rfl rfl⟩⟩
  trans h h' := by
    refine ⟨h.1.trans h'.1, fun hs he hworks => ?_⟩
    obtain ⟨hcovers, gone, hgone⟩ := h.2 hs he hworks
    obtain ⟨hcovers', gone', hgone'⟩ :=
      h'.2 (h.1.sound hs) (h.1.exact nofun nofun hs nofun he) (h.1.works nofun hworks)
    exact ⟨hcovers' ∘ hcovers, _, hgone.trans hgone'⟩
  path h := h.1.mono fun _ _ => trivial
  keepsUp {t t'} _ htended := by
    have hpath : Path upkeep t t' := .single htended.stride.step
    have hrows : t'.rows = t.rows := hpath.rows_eq_of_upkeep
    refine ⟨hpath.mono fun _ => False.elim, fun _ _ _ => ⟨fun hc => ?_, [], .nothing hrows htended.references⟩⟩
    refine hc.of_subset htended.stride.step.sameFrame.rules ?_ fun x hx => hrows ▸ hx
    rintro ⟨id, hid⟩
    exact ⟨id, htended.stride.facts ▸ hid⟩

namespace Course

/-- A listener that does not act on the table may be told on this course, if it leaves the
references alone. Nobody loses a designation by it, and no row is taken out. -/
theorem bequeathing_of_near (hnear : t.Near t') (hreferences : t'.references = t.references) :
    (bequeathing a).rel t t' := by
  have hbeside := hnear.beside
  refine ⟨.single (.aside hbeside), fun _ _ _ => ⟨fun hc => ?_, [], .nothing hbeside.rows_eq hreferences⟩⟩
  refine hc.of_subset hbeside.rules ?_ fun x hx => hbeside.rows_eq ▸ hx
  rintro ⟨id, hid⟩
  exact ⟨id, hnear.facts ▸ hid⟩

/-- A handle may be marked and unmarked on this course. -/
theorem bequeathing_mark (t : Table) (h : HandleId) (deleting : Bool) :
    (bequeathing a).rel t (t.updateHandle h fun s => { s with deleting := deleting }) := by
  refine ⟨.single (.mark rfl h deleting), fun _ _ _ => ⟨fun hc => ?_, [], .nothing rfl rfl⟩⟩
  exact hc.of_subset rfl id fun _ hx => hx

/-- The row of the symbol that is deleted was stored when its handle was ready. While what lies in
it is deleted, its own row stays, so what is left of its references in the end was left by
itself. -/
theorem bequeathing_nests : (bequeathing a).Nests fun _ => bequeathing a where
  weaken _ hrel := hrel
  departs {t t₁ t₂ h r} hs _ _ hrow hrel hkey hdeparts := by
    refine ⟨hrel.1.trans (hdeparts.path hkey), fun _ he hworks => ?_⟩
    obtain ⟨hcovers, gone, hgone⟩ := hrel.2 hs he hworks
    have hworks₁ := hrel.1.works nofun hworks
    cases hdeparts with
    | unnoted _ hfails => exact absurd hfails hworks₁.not_mayFail
    | @noted t₂ hremoval name =>
      have hr := Table.mem_of_row? ((he.mirrors h).row r hrow)
      have hdeparted : t.Bequeaths (gone ++ [r]) (t₂.bury ⟨r, name⟩) := hgone.departs hs hr hremoval
      have hcovers₂ : t₁.CoversAt a → t₂.CoversAt a := fun hc => hc.of_removal hworks₁ hremoval
      exact ⟨fun hc => hcovers₂ (hcovers hc), _, hdeparted.stored, hdeparted.mem_rows, hdeparted.references⟩
  unmark {t t' h} _ _ hrel := ((bequeathing_mark t h true).trans hrel).trans (bequeathing_mark t' h false)

end Course

namespace Action

/-- What a deletion takes out leaves its references, if the listener lets them be. -/
theorem follows_delete_bequeathing (hnotify : ∀ e (x : Situated σ), x.table.Near (notify e x).table)
    (hspares : notify.SparesReferences) (h : HandleId) : Follows (.bequeathing a) (delete notify h) := by
  refine .bind (.look _) fun _ => follows_deleteWithin Course.bequeathing_nests (fun e s _ _ => ?_) _ h
  have hbeside := (hnotify e s).beside
  refine Course.bequeathing_of_near ⟨⟨hbeside.store, hbeside.handles, hbeside.pool, hbeside.settings,
    hbeside.rules, hbeside.closed⟩, (hnotify e s).facts⟩ (hspares e s)

end Action

/-! ## Listings -/

/-- A monitor that never stops a scan sees all of it. The induction is on the elements, for any
number of them that are done. -/
theorem Monitor.scan_silent {α : Type} (keep : α → Bool) (done : Nat) (xs : List α) :
    silent.scan keep done xs () = (xs.filter keep, ()) := by
  induction xs generalizing done with
  | nil => rfl
  | cons x xs ih =>
    rw [scan]
    dsimp only [silent] at ih ⊢
    rw [ih, List.filter_cons]

/-- An open table in order, over a store that works. -/
structure Table.Settled (t : Table) : Prop where
  sound : t.Sound
  exact : t.Exact
  regular : t.Regular
  kinds : ∀ r ∈ t.rows, ∃ k, r.kind? = some k
  opened : t.closed = false

namespace Table.Settled

/-- A settled table is so when handles have been kept up. Its rows, its references and its
designations are the same, and the store still works. -/
theorem of_upkept (ht : t.Settled) (hrel : Course.upkept.rel t t') : t'.Settled := by
  have hpath := Course.path_of_upkept hrel
  have hrows : t'.rows = t.rows := hpath.rows_eq_of_upkeep
  have hdesignated : t'.Designated := by
    intro a id hprimary
    rw [Course.facts_of_upkept hrel] at hprimary
    exact (ht.regular.designated a id hprimary).of_row?_eq hpath.sameFrame.rules (row?_congr hrows id)
  exact ⟨hpath.sound ht.sound, hpath.exact not_false not_false ht.sound False.elim ht.exact,
    ht.regular.of_path hpath not_false hdesignated, fun r hr => ht.kinds r (hrows ▸ hr),
    hpath.sameFrame.closed.trans ht.opened⟩

/-- Taking rows out leaves a table in order. No id is drawn by it, so the ids that remained before
remain. -/
theorem of_pruned (ht : t.Settled) (hlt : t.drawn < UInt64.size - 1)
    (hrel : (Course.regular Table.pruning).rel t t') : t'.Settled := by
  have hpath : Path Table.pruning t t' := hrel.1
  obtain ⟨he, hregular⟩ := hrel.keeps ht.sound (hpath.drawn_eq ▸ hlt) ht.exact ht.regular
  exact ⟨hpath.sound ht.sound, he, hregular, fun r hr => ht.kinds r (hpath.rows_subset hr),
    hpath.sameFrame.closed.trans ht.opened⟩

end Table.Settled

/-- Undisturbed runs over a store that works lead to settled tables, as long as ids are left. This
gathers all that the answers about references depend on, from the courses of the runs. -/
theorem Undisturbed.settled {s₀ s : Situated σ} (hnew : s₀.table.IsNew .standard)
    (hworks : s₀.table.store.Works) (hrun : Undisturbed s₀ s) (hlt : s.table.drawn < UInt64.size - 1) :
    s.table.Settled := by
  have hstanding := hrun.standing hnew
  have hrel := hrun.rel hnew.sound
  obtain ⟨he, hregular⟩ :=
    hrel.keeps hnew.sound hlt hnew.exact (.of_isNew hnew Rules.steady_standard hworks)
  refine ⟨hstanding.sound, he, hregular, fun r hr => ?_, ?_⟩
  · obtain ⟨⟨k, hk, -⟩, -⟩ := hstanding.forest hlt r hr
    exact ⟨k, hk⟩
  · exact hrel.path.sameFrame.closed.trans hnew.closed_eq

/-- Asked for its references, the symbol of a handle lists this one. -/
def Situated.Attributes (s : Situated σ) (h : HandleId) (x : Reference) : Prop :=
  ∃ found s', (references Monitor.silent h ()).run s = (.ok (found, ()), s') ∧ x ∈ found

namespace Action

/-- A symbol whose handle is ready lists the references that it owns at its address, and nothing
changes. -/
theorem answers_references (hopen : t.closed = false) (hready : t.IsReady h) :
    Answers t (references Monitor.silent h () : Action σ _) fun found t' =>
      found = ((t.references.into (t.handle h).address).filter (t.handleOwns h), ()) ∧ t' = t := by
  refine answers_current_of_isReady hopen hready (Ends.look ⟨_, rfl, ?_, rfl⟩)
  exact Monitor.scan_silent _ _ _

/-- What belongs to the symbol of a handle is what it holds. The symbol is primary in its handle
exactly if it is designated at the address of its row. -/
theorem handleOwns_iff (ht : t.Settled) (hserves : t.Serves h id) (hget : t.row? id = some r) :
    t.handleOwns h x = true ↔ t.Holds r.address x id := by
  have hid : (t.handle h).id? = some id := Handle.id?_eq_some_iff.2 hserves.key
  unfold Table.handleOwns Table.owns Table.Holds
  rw [isPrimary_eq ht.exact hserves ht.sound ht.regular.designated hget, hid]
  cases x.owner <;> simp

/-- A stored symbol lists a reference exactly if it holds it. Whether it is designated is told by
the table, and who owns the reference by the reference itself. -/
theorem attributes_iff {s : Situated σ} (ht : s.table.Settled) (hserves : s.table.Serves h id)
    (hget : s.table.row? id = some r) :
    s.Attributes h x ↔ x ∈ s.table.references.into r.address ∧ s.table.Holds r.address x id := by
  have hrow := ht.exact.row_of_key ht.sound hserves.key hget
  obtain ⟨_, s', hrun, rfl, -⟩ := (answers_references (σ := σ) ht.opened hserves.ready).exists_run
  rw [← handleOwns_iff ht hserves hget, ← (ht.sound.inOrder h).address _ hrow, ← List.mem_filter]
  constructor
  · rintro ⟨found, _, hrun', hx⟩
    cases hrun.symm.trans hrun'
    exact hx
  · exact fun hx => ⟨_, s', hrun, hx⟩

end Action

/-- Handles that were listed for an address: one for each symbol that is stored there, and it lists
what its symbol holds. -/
structure Situated.Distributes (s : Situated σ) (a : Address) (handles : List HandleId) (s₁ : Situated σ) :
    Prop where
  nodup : handles.Nodup
  stored : ∀ h ∈ handles, ∃ r ∈ s.table.rows, r.address = a ∧ (s₁.table.handle h).key = .stored r.id
  one : ∀ r ∈ s.table.rows, r.address = a → ∃! h, h ∈ handles ∧ (s₁.table.handle h).key = .stored r.id
  attributes : ∀ h ∈ handles, ∀ id, (s₁.table.handle h).key = .stored id → ∀ x,
    s₁.Attributes h x ↔ x ∈ s.table.references.into a ∧ s.table.Holds a x id

/-- Handles that serve different symbols are different. Each has the key of its own id. The
induction is along the two lists. -/
theorem Table.nodup_of_serves {found : List HandleId} {ids : List SymbolId}
    (hall : List.Forall₂ t.Serves found ids) (hids : ids.Nodup) : found.Nodup := by
  induction hall with
  | nil => exact .nil
  | @cons h id found ids hserves hall ih =>
    obtain ⟨hnew, hids⟩ := List.nodup_cons.1 hids
    refine List.nodup_cons.2 ⟨fun hmem => ?_, ih hids⟩
    obtain ⟨i, hi, hserves'⟩ := exists_of_forall₂ hall hmem
    cases hserves.key.symm.trans hserves'.key
    exact hnew hi

/-- Where symbols are stored, they are listed. Each of them is listed once, under the handle that is
found for its id, and lists what its symbol holds. That there is a row rules the derived symbol
out. -/
theorem Situated.exists_listing {s : Situated σ} (ht : s.table.Settled) (hoccupied : ¬ s.table.Vacant a) :
    ∃ handles s₁, (symbolsAt a).run s = (.ok handles, s₁) ∧ s.Distributes a handles s₁ := by
  have hupkept := follows_symbolsAt (σ := σ) (c := .upkept) a s.table ht.sound
  obtain ⟨_, s₁, hrun, ⟨found, rfl, hall⟩, hrel⟩ := ((answers_symbolsAt_of_occupied ht.sound
    ht.regular.works ht.kinds ht.exact.pooled.pools hoccupied).and hupkept).exists_run
  have hall := hall.imp fun _ _ hoffers => hoffers.toServes
  have ht₁ := ht.of_upkept hrel
  have hrows : s₁.table.rows = s.table.rows :=
    (Course.path_of_upkept hrel).rows_eq_of_upkeep
  have hserved {h : HandleId} (hh : h ∈ found) : ∃ r ∈ s.table.rows, r.address = a ∧ s₁.table.Serves h r.id := by
    obtain ⟨i, hi, hserves⟩ := exists_of_forall₂ hall hh
    obtain ⟨r, hr, rfl⟩ := List.mem_map.1 hi
    obtain ⟨hr, haddress⟩ := List.mem_filter.1 hr
    exact ⟨r, hr, of_decide_eq_true haddress, hserves⟩
  refine ⟨_, s₁, hrun, ?_, fun h hh => ?_, fun r hr haddress => ?_, fun h hh id hkey x => ?_⟩
  · refine (List.mergeSort_perm _ _).nodup_iff.2 (Table.nodup_of_serves hall ?_)
    exact (ht.sound.backend.ascending_rows.nodup_ids).sublist (List.filter_sublist.map _)
  · obtain ⟨r, hr, haddress, hserves⟩ := hserved (List.mem_mergeSort.1 hh)
    exact ⟨r, hr, haddress, hserves.key⟩
  · have hid : r.id ∈ (s.table.rows.filter (·.address = a)).map (·.id) :=
      List.mem_map_of_mem (List.mem_filter.2 ⟨hr, decide_eq_true haddress⟩)
    obtain ⟨h, hh, hserves⟩ := exists_of_forall₂ hall.flip hid
    refine ⟨h, ⟨List.mem_mergeSort.2 hh, hserves.key⟩, ?_⟩
    rintro k ⟨hk, hkey⟩
    obtain ⟨p, -, -, hserves'⟩ := hserved (List.mem_mergeSort.1 hk)
    have hid : p.id = r.id := Key.stored.inj (hserves'.key.symm.trans hkey)
    exact ht₁.exact.eq_of_serves hserves (hid ▸ hserves')
  · obtain ⟨r, hr, rfl, hserves⟩ := hserved (List.mem_mergeSort.1 hh)
    cases hkey.symm.trans hserves.key
    have hget : s₁.table.row? r.id = some r :=
      (Table.row?_congr hrows _).trans (Table.row?_id ht.sound.backend hr)
    rw [attributes_iff ht₁ hserves hget, Course.references_of_upkept hrel, Table.Holds, Table.Holds,
      Course.facts_of_upkept hrel]

/-- What was listed for an address before rows were taken out is listed after that, for the symbol
that holds it then. -/
theorem Situated.Distributes.of_bequeaths {s s₁ s' s₂ : Situated σ} {handles handles' : List HandleId}
    (hlists : s.Distributes a handles s₁) (hlists' : s'.Distributes a handles' s₂) (hs : s.table.Sound)
    (hd : s'.table.Designated) (hserved : s'.table.Served a) (hgone : s.table.Bequeaths gone s'.table)
    (hh : h ∈ handles) (hx : s₁.Attributes h x) :
    ∃! k, k ∈ handles' ∧ s₂.Attributes k (x.inherited gone a) := by
  obtain ⟨r, hr, haddress, hkey⟩ := hlists.stored h hh
  obtain ⟨hmem, hholds⟩ := (hlists.attributes h hh _ hkey x).1 hx
  obtain ⟨p, hp, hpaddress, hholder⟩ :=
    hgone.exists_holder hs hd hserved (Table.row?_id hs.backend hr) haddress hholds
  obtain ⟨k, ⟨hk, hpkey⟩, hone⟩ := hlists'.one p hp hpaddress
  have hmem' : x.inherited gone a ∈ s'.table.references.into a := by
    rw [hgone.references, References.into_left]
    exact List.mem_map_of_mem hmem
  refine ⟨k, ⟨hk, (hlists'.attributes k hk _ hpkey _).2 ⟨hmem', (hholder _).2 rfl⟩⟩, ?_⟩
  rintro i ⟨hi, hxi⟩
  obtain ⟨q, -, -, hqkey⟩ := hlists'.stored i hi
  have hq : q.id = p.id := (hholder _).1 ((hlists'.attributes i hi _ hqkey _).1 hxi).2
  exact hone i ⟨hi, hq ▸ hqkey⟩

/-! ## Deletions in runs -/

/-- **Deletion loses no reference.** Whatever was done to a table with the usual rules since it was
opened empty: if a stored symbol is primary at an address, and after a deletion that is not refused
there is a label or a function left there, there are as many references to the address as before.
What a symbol that was listed for the address listed as its own is listed then for one of the
symbols that are left and for no other, with the same owner or as the primary symbol's. The store
works, listeners do not act on the table, rows and designations are changed through moves alone,
derived symbols are not relocated, and there are ids left. -/
theorem Undisturbed.deletions_lose_no_reference {s₀ s s' : Situated σ} (hnew : s₀.table.IsNew .standard)
    (hworks : s₀.table.store.Works) (hrun : Undisturbed s₀ s) (hlt : s.table.drawn < UInt64.size - 1)
    (hnotify : ∀ e (x : Situated σ), x.table.Near (notify e x).table) (hspares : notify.SparesReferences)
    {existed : Bool}
    (hdelete : (delete notify h).run s = (.ok existed, s'))
    (hprimary : s.table.facts.primaryAt a = some id)
    (hleft : ∃ r ∈ s'.table.rows, r.address = a ∧ (r.kind? = some .label ∨ r.kind? = some .function)) :
    s'.table.references.count a = s.table.references.count a ∧
    ∃ handles s₁ handles' s₂, (symbolsAt a).run s = (.ok handles, s₁) ∧
      (symbolsAt a).run s' = (.ok handles', s₂) ∧ handles'.Nodup ∧
      ∃ f : Reference → Reference, (∀ x, f x = x ∨ f x = { x with owner := .primary }) ∧
        s'.table.references.into a = (s.table.references.into a).map f ∧
        ∀ k ∈ handles, ∀ x, s₁.Attributes k x → ∃! k', k' ∈ handles' ∧ s₂.Attributes k' (f x) := by
  have ht := hrun.settled hnew hworks hlt
  have hfollows {c : Course} (hc : Follows c (delete notify h)) : c.rel s.table s'.table := by
    have hrel := hc s.table ht.sound s rfl
    rwa [hdelete] at hrel
  have hregular : (Course.regular Table.pruning).rel s.table s'.table :=
    hfollows (follows_delete (.of_near Course.aloof_regular hnotify) Course.regular_removes h)
  have hbequeathing : (Course.bequeathing a).rel s.table s'.table :=
    hfollows (follows_delete_bequeathing hnotify hspares h)
  obtain ⟨hcovers, gone, hgone⟩ := hbequeathing.2 ht.sound ht.exact ht.regular.works
  have ht' := ht.of_pruned hlt hregular
  obtain ⟨l, hl, hladdress, hlkind⟩ := hleft
  have hserved : s'.table.Served a := by
    have hrules : s'.table.rules = .standard := by
      rw [hregular.path.sameFrame.rules, (hrun.rel hnew.sound).path.sameFrame.rules, hnew.rules_eq]
    have hable : s'.table.Able l := by
      rcases hlkind with hk | hk
      · exact ⟨.label, hk, by rw [hrules]; rfl⟩
      · exact ⟨.function, hk, by rw [hrules]; rfl⟩
    exact hladdress ▸ hcovers (fun _ _ _ _ => ⟨id, hprimary⟩) l hl hladdress hable
  have hoccupied : ¬ s.table.Vacant a := by
    obtain ⟨r, -, hget, haddress, -⟩ := ht.regular.designated a id hprimary
    exact fun hvacant => hvacant r (Table.mem_of_row? hget) haddress
  obtain ⟨handles, s₁, hrun₁, hlists⟩ := Situated.exists_listing ht hoccupied
  obtain ⟨handles', s₂, hrun₂, hlists'⟩ :=
    Situated.exists_listing ht' fun hvacant => hvacant l hl hladdress
  have hinto : s'.table.references.into a =
      (s.table.references.into a).map (Reference.inherited gone a) := by
    rw [hgone.references, References.into_left]
  refine ⟨?_, handles, s₁, handles', s₂, hrun₁, hrun₂, hlists'.nodup, Reference.inherited gone a,
    Reference.inherited_or gone a, hinto, fun k hk x hx => ?_⟩
  · rw [References.count, References.count, hinto, List.length_map]
  · exact hlists.of_bequeaths hlists' ht.sound ht'.regular.designated hserved hgone hk hx

/-- A label in a function was given the designation. With the function both are deleted, and it goes
over to the function and then to the label that is left. Three references follow it, and one stays
with its owner. -/
theorem Undisturbed.deletions_lose_no_reference_of_nested :
    let s₀ : Situated Unit := ⟨.empty default .standard, (), 0⟩
    let new (name : String) (k : Kind) (scope : Scope) : Move :=
      .create ⟨name, k, .ram 16, scope, .userDefined, 0, 0, none⟩
    let go (s : Situated Unit) (m : Move) := ((m.action Listener.idle).run s).2
    let s₁ := [new "f" .function .global, new "x" .label (.of ⟨1, by decide⟩), new "y" .label .global,
      .edit 1 .setPrimary].foldl go s₀
    let owners : List Owner :=
      [.primary, .symbol ⟨1, by decide⟩, .symbol ⟨2, by decide⟩, .symbol ⟨3, by decide⟩]
    let references := owners.foldl (fun x owner => x.add ⟨.ram 64, .ram 16, .jump, owner⟩) .empty
    let s : Situated Unit := { s₁ with table := { s₁.table with references := references } }
    let deleted := (delete Listener.idle 0).run s
    let s' := deleted.2
    s₀.table.IsNew .standard ∧ s₀.table.store.Works ∧ Undisturbed s₀ s ∧
      s.table.drawn < UInt64.size - 1 ∧
      (∀ e (x : Situated Unit), x.table.Near (Listener.idle e x).table) ∧
      (Listener.idle : Listener Unit).SparesReferences ∧ deleted.1 = .ok true ∧
      s.table.facts.primaryAt (.ram 16) = some ⟨2, by decide⟩ ∧
      (∃ r ∈ s'.table.rows, r.address = .ram 16 ∧ (r.kind? = some .label ∨ r.kind? = some .function)) ∧
      (s'.table.references.into (.ram 16)).map (·.owner) =
        [.primary, .primary, .primary, .symbol ⟨3, by decide⟩] ∧
      s'.table.references.count (.ram 16) = s.table.references.count (.ram 16) ∧
      ∃ handles s₁ handles' s₂, (symbolsAt (.ram 16)).run s = (.ok handles, s₁) ∧
        (symbolsAt (.ram 16)).run s' = (.ok handles', s₂) ∧ handles'.Nodup ∧
        ∃ f : Reference → Reference, (∀ x, f x = x ∨ f x = { x with owner := .primary }) ∧
          s'.table.references.into (.ram 16) = (s.table.references.into (.ram 16)).map f ∧
          ∀ k ∈ handles, ∀ x, s₁.Attributes k x → ∃! k', k' ∈ handles' ∧ s₂.Attributes k' (f x) := by
  intro s₀ new go s₁ owners references s deleted s'
  have hnew : s₀.table.IsNew .standard := .memory _ _ _
  have hworks : s₀.table.store.Works := fun _ _ _ => rfl
  have hidle (e : Event) (x : Situated Unit) : x.table.Near (Listener.idle e x).table :=
    ⟨⟨rfl, rfl, rfl, rfl, rfl, rfl⟩, rfl⟩
  have hrun₁ : Undisturbed s₀ s₁ :=
    .move (.move (.move (.move .refl rfl hidle) rfl hidle) rfl hidle) rfl hidle
  have hnear (x : Situated Unit) : x.table.Near { x.table with references := references } :=
    ⟨⟨rfl, rfl, rfl, rfl, rfl, rfl⟩, rfl⟩
  have hrun : Undisturbed s₀ s := .near hrun₁ (hnear s₁)
  have hlt : s.table.drawn < UInt64.size - 1 := by decide
  have hspares : (Listener.idle : Listener Unit).SparesReferences := fun _ _ => rfl
  have hok : deleted.1 = .ok true := by decide
  have hdelete : (delete Listener.idle 0).run s = (.ok true, s') := by rw [← hok]
  have hprimary : s.table.facts.primaryAt (.ram 16) = some ⟨2, by decide⟩ := by decide
  have hleft : ∃ r ∈ s'.table.rows, r.address = .ram 16 ∧
      (r.kind? = some .label ∨ r.kind? = some .function) := by decide
  exact ⟨hnew, hworks, hrun, hlt, hidle, hspares, hok, hprimary, hleft, by decide,
    Undisturbed.deletions_lose_no_reference hnew hworks hrun hlt hidle hspares hdelete hprimary hleft⟩

end SymbolTable
