import SymbolTable.Proofs.Identity

/-!
# Derived symbols lie where no stored one does

A derived symbol stands for what lies at an address that has no symbol. Only where no row lies is
one pooled, and a row that is stored drops the one at its address. But a row that moves does not: it
may come to lie where there is a derived symbol, which goes on to be there, and so may a derived
symbol that is moved to where a row lies (`Runs.derived_meets_stored`).

As long as nothing is moved onto a symbol of the other sort, derived symbols lie apart from the rows
(`Runs.derived_lie_apart`). Every stride keeps them apart that moves nothing (`Table.Stride.apart`),
and so does a move to a free place (`Table.Apart.readdressed`, `Table.Apart.transferred`).
-/

namespace SymbolTable

open SymbolTable.Action
open Table (Path Step upkeep)

variable {σ : Type} {t t' : Table} {may : Deed → Prop} {notify : Listener σ} {h k : HandleId}

namespace Table

/-! ## Derived symbols and rows -/

/-- No row lies where a derived symbol does. -/
def Apart (t : Table) : Prop :=
  ∀ k, (t.handle k).isDerived = true → t.Vacant (t.handle k).address

instance (t : Table) (a : Address) : Decidable (t.Vacant a) :=
  inferInstanceAs (Decidable (∀ r ∈ t.rows, r.address ≠ a))

/-- A derived symbol is pooled for its address. -/
theorem Exact.get?_of_isDerived (he : t.Exact) (hs : t.Sound) (hk : (t.handle k).isDerived = true) :
    t.pool.get? (.derived (t.handle k).address) = some k := by
  obtain ⟨hrow, hlive⟩ := Handle.isDerived_iff.1 hk
  exact (he.pooled _ k).2 ⟨hlive, ((hs.inOrder k).derived hlive hrow).1⟩

/-- Where a change of a handle makes no derived symbol and moves none, each that is derived then was
so before, at the same address. -/
theorem of_isDerived_updateHandle {f : Handle → Handle} (hf : (f (t.handle h)).isDerived = true →
      (t.handle h).isDerived = true ∧ (f (t.handle h)).address = (t.handle h).address)
    (hk : ((t.updateHandle h f).handle k).isDerived = true) :
    (t.handle k).isDerived = true ∧ ((t.updateHandle h f).handle k).address = (t.handle k).address := by
  rcases t.handle_updateHandle_or h f k with heq | ⟨rfl, heq⟩
  · rw [heq] at hk ⊢
    exact ⟨hk, rfl⟩
  · rw [heq] at hk ⊢
    exact hf hk

/-- Writing the row of a handle neither makes nor moves a derived symbol. -/
theorem of_isDerived_written {r : Row} {b : Store.Backend}
    (hk : ((t.written h r b).handle k).isDerived = true) :
    (t.handle k).isDerived = true ∧ ((t.written h r b).handle k).address = (t.handle k).address :=
  of_isDerived_updateHandle (t := t.withBackend b) nofun hk

/-- The symbols that are derived once a fresh row is stored were derived before, but from elsewhere.
The pool has no more than one for each address, and that one is dropped when the row is stored. -/
theorem Exact.of_isDerived_withFresh (he : t.Exact) (hs : t.Sound) {row : Row} {b : Store.Backend}
    (hk : ((t.withFresh row b).handle k).isDerived = true) :
    (t.withFresh row b).handle k = t.handle k ∧ (t.handle k).address ≠ row.address := by
  rw [withFresh, handle_dropDerived] at hk ⊢
  split at hk
  · cases (Handle.isDerived_iff.1 hk).2
  · rename_i hpool
    rw [if_neg hpool]
    refine ⟨rfl, fun heq => hpool ?_⟩
    rw [← heq]
    exact he.get?_of_isDerived hs hk

namespace Apart

/-- Of the symbols that are derived now, each was so before at the same address, and each row that
is new lies elsewhere. -/
theorem of_rows (ha : t.Apart) (hrows : ∀ k, (t'.handle k).isDerived = true →
      ∀ r ∈ t'.rows, r.address = (t'.handle k).address → ∃ x ∈ t.rows, x.address = r.address)
    (hhandles : ∀ k, (t'.handle k).isDerived = true →
      (t.handle k).isDerived = true ∧ (t'.handle k).address = (t.handle k).address) : t'.Apart := by
  intro k hk r hr haddress
  obtain ⟨x, hx, hsame⟩ := hrows k hk r hr haddress
  obtain ⟨hbefore, heq⟩ := hhandles k hk
  exact ha k hbefore x hx (hsame.trans (haddress.trans heq))

/-- No row is new, and no derived symbol is. -/
theorem of_subset (ha : t.Apart) (hrows : ∀ r ∈ t'.rows, r ∈ t.rows)
    (hhandles : ∀ k, (t'.handle k).isDerived = true →
      (t.handle k).isDerived = true ∧ (t'.handle k).address = (t.handle k).address) : t'.Apart :=
  ha.of_rows (fun _ _ r hr _ => ⟨r, hrows r hr, rfl⟩) hhandles

/-- What goes on outside the table but changes no row keeps derived symbols apart from the rows. The
rows are the same, and so are the handles and their keys. -/
theorem of_drifts (ha : t.Apart) (hdrifts : t.Drifts t') : t'.Apart := by
  have hhandle : ∀ k, t'.handle k = t.handle k := fun k => by
    rw [handle, handle, hdrifts.handles]
  have hrows : t'.rows = t.rows := congrArg Store.Backend.rows hdrifts.backend
  refine ha.of_subset (fun r hr => hrows ▸ hr) fun k hk => ?_
  rw [hhandle] at hk ⊢
  exact ⟨hk, rfl⟩

/-- A fresh row is stored, and no symbol is derived from its address any more. Those that are still
derived lie elsewhere, and no other row is new. -/
theorem of_fresh (ha : t.Apart) (hs : t.Sound) {row : Row} {b : Store.Backend}
    (hstores : t.Stores row b) (hrows : t'.rows = b.rows)
    (hhandles : ∀ k, (t'.handle k).isDerived = true →
      t'.handle k = t.handle k ∧ (t.handle k).address ≠ row.address) : t'.Apart := by
  refine ha.of_rows (fun k hk r hr haddress => ?_) fun k hk => ?_
  · obtain ⟨heq, hne⟩ := hhandles k hk
    rw [hrows] at hr
    rcases (hstores.mem_rows hs r).1 hr with rfl | ⟨hr, -⟩
    · rw [heq] at haddress
      exact absurd haddress.symm hne
    · exact ⟨r, hr, rfl⟩
  · obtain ⟨heq, -⟩ := hhandles k hk
    rw [heq] at hk ⊢
    exact ⟨hk, rfl⟩

end Apart

/-- A derived symbol is stored. The others lie elsewhere, for it was the one pooled for its address.
In an exact table there is no more than one symbol derived from an address. -/
theorem Apart.promote (ha : t.Apart) (hs : t.Sound) (he : t.Exact) {row : Row} {b : Store.Backend}
    (hlive : (t.handle h).deleted = false) (hrow : (t.handle h).row = none)
    (haddress : row.address = (t.handle h).address) (hstores : t.Stores row b) :
    ((t.withBackend b).embody h row).Apart := by
  have hhandle : ∀ k, ((t.withBackend b).embody h row).handle k =
      if k = h then (t.handle h).promoted row (t.withBackend b).store.modificationCount
      else t.handle k :=
    handle_updateHandle t (lt_of_live hlive) (·.promoted row _)
  refine ha.of_fresh hs hstores rfl fun k hk => ?_
  rw [hhandle] at hk ⊢
  split at hk
  · cases hk
  · rename_i hne
    rw [if_neg hne]
    refine ⟨rfl, fun hsame => hne ?_⟩
    have hself := he.get?_of_isDerived hs (Handle.isDerived_iff.2 ⟨hrow, hlive⟩)
    have hother := he.get?_of_isDerived hs hk
    rw [hsame, haddress, hself] at hother
    exact (Option.some.inj hother).symm

/-- Whatever is done that moves nothing, derived symbols lie apart from the rows. The proof goes
through the steps that a stride may take. Only storing a row and pooling a symbol could bring two
together, and both look at the address. -/
theorem Stride.apart (hstride : t.Stride may t') (hreaddress : ¬ may .readdress)
    (hrelocate : ¬ may .relocate) (hintrude : ¬ may .intrude) (hs : t.Sound) (he : t.Exact)
    (ha : t.Apart) : t'.Apart := by
  have hsame : ∀ r ∈ t.rows, r ∈ t.rows := fun _ hr => hr
  obtain ⟨hstep, -, hderivable⟩ := hstride
  cases hstep with
  | aside hbeside => exact ha.of_drifts hbeside.drifts
  | plan => exact ha
  | adopt s =>
    intro k hk
    by_cases hlt : k < t.handles.length
    · rw [handle_adopt, if_neg (Nat.ne_of_lt hlt)] at hk ⊢
      exact ha k hk
    · exact (hderivable k (Nat.le_of_not_lt hlt) hk).vacant
  | refresh => exact ha.of_subset hsame fun _ => of_isDerived_updateHandle nofun
  | vanish => exact ha.of_subset hsame fun _ => of_isDerived_updateHandle (f := (·.invalidated)) nofun
  | mark => exact ha.of_subset hsame fun _ => of_isDerived_updateHandle fun hk => ⟨hk, rfl⟩
  | draw =>
    refine ha.of_subset (fun r hr => ?_) fun k hk => ⟨hk, rfl⟩
    rwa [hs.rows_draw] at hr
  | @insert _ _ row b _ hstores =>
    exact ha.of_fresh hs hstores (rows_withFresh t row b) fun _ => he.of_isDerived_withFresh hs
  | @create _ _ row b s _ hstores _ hnew =>
    refine ha.of_fresh hs hstores (rows_withFresh t row b) fun k hk => ?_
    rw [handle_adopt] at hk ⊢
    split at hk
    · obtain ⟨_, -, rfl⟩ := Handle.eq_of_ofRow hnew
      cases hk
    · rename_i hne
      rw [if_neg hne]
      exact he.of_isDerived_withFresh hs hk
  | promote _ h hlive hrow _ haddress hstores =>
    exact ha.promote hs he hlive hrow haddress hstores
  | @edit h r r' b hrow hedits hputs =>
    refine ha.of_rows (fun k _ x hx _ => ?_) fun _ => of_isDerived_written
    rcases (hputs.mem_rows x).1 hx with rfl | ⟨hx, -⟩
    · exact ⟨r, mem_of_row? ((he.mirrors h).row r hrow), (hedits.address_eq hreaddress).symm⟩
    · exact ⟨x, hx, rfl⟩
  | takeOut _ h hkey hremoves =>
    exact ha.of_subset (fun r hr => ((hremoves.mem_rows r).1 hr).1) fun _ =>
      of_isDerived_updateHandle (t := t) (f := (·.invalidated)) nofun
  | relocate hmay => exact absurd hmay hrelocate
  | intrudePut hmay | intrudeTake hmay => exact absurd hmay hintrude

/-- A row is moved to where no symbol is derived, or stays where it is. The other rows are where
they were, and no symbol is derived anew. That nobody is derived from the address is the condition
on the move. -/
theorem Apart.readdressed (ha : t.Apart) (hs : t.Sound) (he : t.Exact) {a : Address}
    (hfree : a ≠ (t.handle h).address → t.Underived a) (hmoved : t.Readdressed h a t') : t'.Apart := by
  obtain ⟨r, b, hrow, hputs, hbeside⟩ := hmoved.exists_written
  refine Apart.of_drifts ?_ hbeside.drifts
  intro k hk x hx haddress
  obtain ⟨hbefore, heq⟩ := of_isDerived_written hk
  rw [heq] at haddress
  rcases (hputs.mem_rows x).1 hx with rfl | ⟨hx, -⟩
  · by_cases hstays : a = (t.handle h).address
    · have hr : r ∈ t.rows := mem_of_row? ((he.mirrors h).row r hrow)
      exact ha k hbefore r hr (((hs.inOrder h).address r hrow).symm.trans (hstays.symm.trans haddress))
    · have hnone : t.pool.get? (.derived a) = none := hfree hstays
      have hpool := he.get?_of_isDerived hs hbefore
      rw [← haddress] at hpool
      cases hpool.symm.trans hnone
  · exact ha k hbefore x hx haddress

/-- A derived symbol is moved to where no row lies. It takes its pool entry along. The rows stay
where they are, and so do the other derived symbols. -/
theorem Apart.transferred (ha : t.Apart) {a : Address} (hlive : (t.handle h).deleted = false)
    (hvacant : t.Vacant a) : (t.transferred h a).Apart := by
  have hhandle : ∀ k, (t.transferred h a).handle k =
      if k = h then (t.handle h).relocated a else t.handle k :=
    handle_updateHandle t (lt_of_live hlive) (·.relocated a)
  intro k hk
  rw [hhandle] at hk ⊢
  split at hk
  · rw [if_pos ‹_›]
    exact hvacant
  · rw [if_neg ‹_›]
    exact ha k hk

end Table

/-! ## Moves that keep symbols apart -/

/-- The course on which derived symbols lie apart from the rows. -/
def Course.apart : Course :=
  .keeping (fun _ => True) Table.Apart fun _ _ hs he hstride =>
    hstride.apart not_false not_false not_false hs he

namespace Course

/-- Steps that move no derived symbol, and that go through the table, are on the course if derived
symbols are apart at the end of them. -/
theorem apart_of_path (hpath : Path may t t') (hrelocate : ¬ may .relocate) (hintrude : ¬ may .intrude)
    (hkeep : t.Sound → t.Exact → t.Apart → t'.Apart) : apart.rel t t' :=
  keeping_of_path (fun _ _ => trivial) hpath hrelocate hintrude fun hs _ he => hkeep hs he

theorem apart_of_beside (hbeside : t.Beside t') : apart.rel t t' :=
  keeping_of_beside hbeside fun _ _ ha => ha.of_drifts hbeside.drifts

/-- A stride that moves nothing is on the course. -/
theorem apart_of_stride (hstride : t.Stride may t') (hreaddress : ¬ may .readdress)
    (hrelocate : ¬ may .relocate) (hintrude : ¬ may .intrude) : apart.rel t t' :=
  apart_of_path (.single hstride.step) hrelocate hintrude (hstride.apart hreaddress hrelocate hintrude)

theorem apart_designates : apart.Designates :=
  fun _ _ _ _ => apart_of_beside ⟨rfl, rfl, rfl, rfl, rfl, rfl⟩

/-! What moves nothing keeps derived symbols apart from the rows. -/

theorem aloof_apart : apart.Aloof :=
  fun _ _ _ hbeside _ => apart_of_beside hbeside

/-- Symbols may be stored, named and marked on this course, for a row that is stored drops the
symbol derived from its address. -/
theorem apart_writes : apart.Writes :=
  .of_strides aloof_apart.deaf (fun _ hstride => apart_of_stride hstride nofun nofun nofun)
    fun _ _ _ => apart_of_beside (Table.beside_claimPrimary _ _ _ _)

/-- Rows may be taken out on this course. What is derived from there afterwards is pooled where no
row lies any more. -/
theorem apart_removes : apart.Removes where
  deaf := aloof_apart.deaf
  mark h deleting _ := by
    refine apart_of_stride (.of_length_eq (.mark rfl h deleting) rfl ?_) nofun nofun nofun
    exact Table.length_updateHandle ..
  removal _ _ _ hrel hkey hremoval := by
    obtain ⟨b, hremoves, hbeside⟩ := hremoval.exists_release
    have hreleased := Table.Stride.of_length_eq (.takeOut rfl _ hkey hremoves) rfl List.length_set
    exact hrel.trans ((apart_of_stride hreleased nofun nofun nofun).trans (apart_of_beside hbeside))

theorem apart_allows_plan : apart.Allows .plan := by
  intro t t' _ hdrifts
  have hpath : Path (Eq .plan) t t' := hdrifts.path rfl
  exact apart_of_path hpath nofun nofun fun _ _ ha => ha.of_drifts hdrifts

variable {a : Address}

/-- A stored symbol is moved to where none is derived, once its handle was refreshed. The condition
is stated of the address before the refresh, which is the same in an exact table. The refresh itself
makes no derived symbol. -/
theorem apart_of_readdressed {t₁ t₂ : Table} (hr : t.Refreshed h (.ok ()) t₁)
    (hmoved : t₁.Readdressed h a t₂)
    (hfree : t.Sound → t.Exact → a ≠ (t.handle h).address → t.Underived a) : apart.rel t t₂ := by
  have hpath : Path (Eq .readdress) t t₂ := (hr.path.mono fun _ => False.elim).trans hmoved.path
  refine keeping_of_path (fun _ _ => trivial) hpath nofun nofun fun hs hlt he ha => ?_
  have hs₁ := hr.path.sound hs
  have hlt₁ := Nat.lt_of_le_of_lt (hmoved.path.drawn_le hs₁) hlt
  have hrel : apart.rel t t₁ := hr.rel hs
  obtain ⟨he₁, ha₁⟩ := hrel.keeps hs hlt₁ he ha
  refine ha₁.readdressed hs₁ he₁ ?_ hmoved
  rw [hr.address_eq hs he, Table.Underived, hr.pool_eq]
  exact hfree hs he

/-- A derived symbol is moved to where there is none, stored or derived. -/
theorem apart_of_transferred (hlive : (t.handle h).deleted = false) (hrow : (t.handle h).row = none)
    (hfree : t.Underived a) (hvacant : t.Vacant a) : apart.rel t (t.transferred h a) :=
  ⟨Table.path_transferred trivial hlive hrow, fun hs _ he ha =>
    ⟨he.transferred hs hlive hrow hfree, ha.transferred hlive hvacant⟩⟩

end Course

/-- A move through the table that moves no symbol to where one of the other sort is, and no derived
one to where another one is. -/
structure Move.KeepsApart (t : Table) (m : Move) : Prop where
  goesThrough : m.goesThrough
  stored : ∀ h e a, m = .edit h e → (t.handle h).isDerived = false →
    e.destination? (t.handle h).address = some a → a ≠ (t.handle h).address → t.Underived a
  derived : ∀ h oldBase newBase, m = .edit h (.relocate oldBase newBase) →
    (t.handle h).isDerived = true →
    (t.handle h).address.relocated oldBase newBase ≠ (t.handle h).address →
    t.Underived ((t.handle h).address.relocated oldBase newBase) ∧
      t.Vacant ((t.handle h).address.relocated oldBase newBase)

namespace Move.KeepsApart

/-- A move through the table that is no edit moves no symbol. -/
theorem of_ne_edit {m : Move} (hm : m.goesThrough) (hne : ∀ h e, m ≠ .edit h e) : m.KeepsApart t :=
  ⟨hm, fun h e _ heq => (hne h e heq).elim, fun h _ _ heq => (hne h _ heq).elim⟩

/-- A variable may be moved to where no derived symbol is. -/
theorem setAddress {a : Address} (hfree : t.Underived a) : (Move.edit h (.setAddress a)).KeepsApart t := by
  refine ⟨trivial, ?_, nofun⟩
  rintro _ _ _ ⟨⟩ - ⟨⟩ -
  exact hfree

/-- A symbol may be relocated to where there is none of either sort. The condition is on the address
to which it goes, and covers derived and stored symbols at once. -/
theorem relocate {oldBase newBase : Address}
    (hfree : t.Underived ((t.handle h).address.relocated oldBase newBase))
    (hvacant : t.Vacant ((t.handle h).address.relocated oldBase newBase)) :
    (Move.edit h (.relocate oldBase newBase)).KeepsApart t := by
  refine ⟨trivial, ?_, ?_⟩
  · rintro _ _ _ ⟨⟩ - ⟨⟩ -
    exact hfree
  · rintro _ _ _ ⟨⟩ - -
    exact ⟨hfree, hvacant⟩

/-- A move of this kind stays on the course, whatever listeners do that stay on it themselves. Only
two edits move a symbol, and for the others the course allows their deed. For a relocation the sort
of the symbol decides which lemma it takes. -/
theorem ends {m : Move} (hm : m.KeepsApart t) (hn : Heeds .apart notify) (ht : t.Sound) :
    Ends t (m.action notify) fun _ t' => Course.apart.rel t t' := by
  by_cases hmoves : ∃ h e, m = .edit h e ∧ e.deed? = some .readdress
  · obtain ⟨h, e, rfl, he⟩ := hmoves
    have hstored {t₁ t₂ : Table} {a : Address} (hr : t.Refreshed h (.ok ()) t₁)
        (hmoved : t₁.Readdressed h a t₂) : (t.handle h).isDerived = false := by
      obtain ⟨r, -, hrow, -⟩ := hmoved.exists_written
      rw [← hr.isDerived_eq, Handle.isDerived, hrow]
      rfl
    cases e with
    | setAddress a =>
      refine Ends.rel_map (Ends.rel_map (ends_setAddress hn ht h a fun t₁ r b hr hrow hk hputs => ?_))
      have hmoved : t₁.Readdressed h a (t₁.written h { r with address := a } b) := .alone hrow hk hputs
      exact Course.apart_of_readdressed hr hmoved fun _ _ => hm.stored h _ a rfl (hstored hr hmoved) rfl
    | relocate oldBase newBase =>
      refine Ends.rel_map (Ends.rel_map (ends_relocate ht h oldBase newBase (fun t₁ t₂ hr _ hmoved => ?_)
        fun a hderived ha hne => ?_))
      · refine Course.apart_of_readdressed hr hmoved fun hs he => ?_
        rw [hr.address_eq hs he]
        exact hm.stored h _ _ rfl (hstored hr hmoved) rfl
      · subst ha
        obtain ⟨hrow, hlive⟩ := Handle.isDerived_iff.1 hderived
        obtain ⟨hfree, hvacant⟩ := hm.derived h oldBase newBase rfl hderived hne
        exact Course.apart_of_transferred hlive hrow hfree hvacant
    | _ => cases he
  · have hpermitted : m.Permitted Course.apart.Allows t :=
      .of_goesThrough hm.goesThrough Course.apart_writes (fun _ _ => Course.apart_removes)
        (fun h e heq he => absurd ⟨h, e, heq, he⟩ hmoves)
        fun h oldBase newBase heq _ => absurd ⟨h, _, heq, rfl⟩ hmoves
    exact Move.ends_rel hn Course.apart_designates ht hpermitted

end Move.KeepsApart

/-! ## Derived symbols in runs -/

variable {s : Situated σ}

/-- **Derived symbols lie where no stored one does.** Whatever was done through a table since it was
opened empty, by moves and by their listeners, and whichever calls of the store failed: a symbol
that is there and is derived from an address lies where the store has no row. No symbol was moved to
where one of the other sort was, no derived one to where another was, and there are ids left. -/
theorem Runs.derived_lie_apart {rules : Rules} {s₀ : Situated σ} (hnew : s₀.table.IsNew rules)
    (hrun : Runs (fun _ t m => m.KeepsApart t) false s₀ s) (hlt : s.table.drawn < UInt64.size - 1)
    {a : Address} (hvalid : ((isValid h).run s).1 = .ok true)
    (hkey : (s.table.handle h).key = .derived a) : ∀ r ∈ s.table.rows, r.address ≠ a := by
  have hrel : Course.apart.rel s₀.table s.table :=
    hrun.rel Course.apart_allows_plan (fun _ _ _ _ hm => hm.ends) hnew.sound
  have hfirst : s₀.table.Apart := by
    intro k _ r hr
    rw [hnew.rows_eq] at hr
    cases hr
  have hs := hrel.sound hnew.sound
  obtain ⟨-, hapart⟩ := hrel.keeps hnew.sound hlt hnew.exact hfirst
  obtain ⟨hderived, rfl⟩ := (hs.inOrder h).derived_of_key hkey (ends_isValid hs h s rfl hvalid)
  exact hapart h hderived

/-- A variable moves away from where it was, a derived symbol is moved there, and another one is
dropped for a label. -/
theorem Runs.derived_lie_apart_of_moved :
    let s₀ : Situated Unit := ⟨.empty default .standard, (), 0⟩
    let new (kind : Kind) (name : String) (offset : UInt64) : Move :=
      .create ⟨name, kind, .ram offset, .global, .userDefined, 0, 0, none⟩
    let go (s : Situated Unit) (m : Move) := ((m.action Listener.idle).run s).2
    let s := [.search (.derivedAt (.ram 16)), .search (.derivedAt (.ram 32)),
      new .globalVariable "x" 48, .edit 2 (.setAddress (.ram 64)),
      .edit 0 (.relocate (.ram 16) (.ram 48)), new .label "y" 32].foldl go s₀
    s₀.table.IsNew .standard ∧ Runs (fun _ t m => m.KeepsApart t) false s₀ s ∧
      s.table.drawn < UInt64.size - 1 ∧ ((isValid 0).run s).1 = .ok true ∧
      (s.table.handle 0).key = .derived (.ram 48) ∧ ∀ r ∈ s.table.rows, r.address ≠ .ram 48 := by
  intro s₀ new go s
  have hnew : s₀.table.IsNew .standard := .memory _ _ _
  have hrun : Runs (fun _ t m => m.KeepsApart t) false s₀ s :=
    .move (.move (.move (.move (.move (.move .refl (.of_ne_edit trivial nofun) .idle)
      (.of_ne_edit trivial nofun) .idle) (.of_ne_edit trivial nofun) .idle)
      (.setAddress (by decide)) .idle) (.relocate (by decide) (by decide)) .idle)
      (.of_ne_edit trivial nofun) .idle
  have hlt : s.table.drawn < UInt64.size - 1 := by decide
  have hvalid : ((isValid 0).run s).1 = .ok true := by decide
  have hkey : (s.table.handle 0).key = .derived (.ram 48) := by decide
  exact ⟨hnew, hrun, hlt, hvalid, hkey, Runs.derived_lie_apart hnew hrun hlt hvalid hkey⟩

/-- A variable is moved to where there is a derived symbol, which goes on to be there. Both are
there then, at one address, and say so. Nobody has acted behind the table's back, and no derived
symbol was moved. -/
theorem Runs.derived_meets_stored :
    let s₀ : Situated Unit := ⟨.empty default .standard, (), 0⟩
    let go (s : Situated Unit) (m : Move) := ((m.action Listener.idle).run s).2
    let s := [.create ⟨"x", .globalVariable, .ram 16, .global, .userDefined, 0, 0, none⟩,
      .search (.derivedAt (.ram 32)), .edit 0 (.setAddress (.ram 32))].foldl go s₀
    s₀.table.IsNew .standard ∧ Runs (fun _ _ m => m.goesThrough) false s₀ s ∧
      s.table.drawn < UInt64.size - 1 ∧ ((isValid 1).run s).1 = .ok true ∧
      (s.table.handle 1).key = .derived (.ram 32) ∧ ∃ r ∈ s.table.rows, r.address = .ram 32 := by
  intro s₀ go s
  have hrun : Runs (fun _ _ m => m.goesThrough) false s₀ s :=
    .move (.move (.move .refl trivial .idle) trivial .idle) trivial .idle
  exact ⟨.memory _ _ _, hrun, by decide, by decide, by decide, by decide⟩

end SymbolTable
