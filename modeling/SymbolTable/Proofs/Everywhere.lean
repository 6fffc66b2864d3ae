import SymbolTable.Proofs.Action.Keeping
import SymbolTable.Proofs.Run

/-!
# Properties of all rows

A property of rows that follows from what is checked before rows are written (`Table.Checked`) holds
of every row and of every copy of one, wherever symbols are created, edited and deleted: there is a
course on which it goes on to hold (`Course.everywhere`). Where rows are moved, it depends on the
property and on the row, so there the course asks what it needs (`everywhere_of_readdressed`).
-/

namespace SymbolTable

open SymbolTable.Action
open Table (Path Step upkeep)

variable {σ : Type} {t t' : Table} {may : Deed → Prop} {h : HandleId}

namespace Table

/-- What is checked before a row is written is enough for a property of the rows of a kind, which
depends on the rules and the settings of the table alone. -/
structure Checked (P : Table → Kind → Row → Prop) : Prop where
  frame {t t' : Table} {k : Kind} {r : Row} : t.SameFrame t' → P t k r → P t' k r
  edit {t : Table} {k : Kind} {r r' : Row} : t.Retains k r r' → P t k r → P t k r'
  create {t : Table} {k : Kind} {r : Row} : t.Proper k r → t.Placed k r → P t k r
  /-- The symbol derived from an address, which is a label, is stored where it lies. -/
  promote {t : Table} {r : Row} : t.Proper .label r →
    ((t.rules.capabilities .label).located = true → t.Placed .label r) → P t .label r

end Table

variable {P : Table → Kind → Row → Prop}

/-- The course on which a property goes on to hold of all rows. -/
def Course.everywhere (P : Table → Kind → Row → Prop) (hP : Table.Checked P) : Course :=
  .maintaining (fun t => t.Everywhere (P t)) fun t t' hs htended he => by
    have hpath : Path upkeep t t' := .single htended.stride.step
    have hrows : t'.rows = t.rows := hpath.rows_eq_of_upkeep
    have he' := he.of_step hs htended.stride.step fun r hr => .inl (hrows ▸ hr)
    exact he'.imp fun _ _ => hP.frame hpath.sameFrame

namespace Course

variable {hP : Table.Checked P}

/-- On the course, what holds everywhere goes on to do so. -/
theorem rel.everywhere (hrel : (everywhere P hP).rel t t') (hs : t.Sound) (he : t.Everywhere (P t)) :
    t'.Everywhere (P t') :=
  rel.maintains (I := fun t => t.Everywhere (P t)) hrel hs he

/-- A step is on the course if the property holds of the rows that are new. The rows that were there
before had it already, and of the table it depends on the frame alone. -/
theorem everywhere_of_step (hstep : Step may t t')
    (hnew : t.Sound → t.Everywhere (P t) → ∀ r ∈ t'.rows, r ∈ t.rows ∨ ∃ k, r.kind? = some k ∧ P t k r) :
    (everywhere P hP).rel t t' :=
  maintaining_of_path (.single hstep) fun hs he =>
    (he.of_step hs hstep (hnew hs he)).imp fun _ _ => hP.frame hstep.sameFrame

/-- A step after which there are no other rows than before is on the course. -/
theorem everywhere_of_subset (hstep : Step may t t') (hrows : t.Sound → ∀ r ∈ t'.rows, r ∈ t.rows) :
    (everywhere P hP).rel t t' :=
  everywhere_of_step hstep fun hs _ r hr => .inl (hrows hs r hr)

theorem everywhere_of_beside (hbeside : t.Beside t') : (everywhere P hP).rel t t' :=
  everywhere_of_subset (.aside hbeside : Step (fun _ => True) t t') fun _ _ hr => hbeside.rows_eq ▸ hr

theorem aloof_everywhere : (everywhere P hP).Aloof :=
  fun _ _ _ hbeside _ => everywhere_of_beside hbeside

theorem everywhere_designates : (everywhere P hP).Designates :=
  fun _ _ _ _ => everywhere_of_beside ⟨rfl, rfl, rfl, rfl, rfl, rfl⟩

/-- Outages may be planned on this course. -/
theorem everywhere_allows_plan : (everywhere P hP).Allows .plan := by
  intro t t' _ hdrifts
  have hpath : Path (Eq .plan) t t' := hdrifts.path rfl
  have hrows : t'.rows = t.rows := congrArg Store.Backend.rows hdrifts.backend
  refine maintaining_of_path hpath fun hs he => ?_
  refine ⟨fun r hr => ?_, fun k r hrow => ?_⟩
  · obtain ⟨k, hk, hr⟩ := he.rows r (hrows ▸ hr)
    exact ⟨k, hk, hP.frame hpath.sameFrame hr⟩
  · have hhandle : t'.handle k = t.handle k := by rw [Table.handle, Table.handle, hdrifts.handles]
    rw [hhandle] at hrow ⊢
    exact hP.frame hpath.sameFrame (he.copies k r hrow)

/-- An edited row is stored in place of the copy of a handle. `hedit` is where the property of rows
is used, for the kind of the handle, which an edit does not change. -/
theorem everywhere_of_written {r r' : Row} {b : Store.Backend} (hrow : (t.handle h).row = some r)
    (hedits : t.Edits may (t.handle h) r r') (hputs : t.store.backend.Puts r' b)
    (hedit : t.Sound → P t (t.handle h).kind r → P t (t.handle h).kind r') :
    (everywhere P hP).rel t (t.written h r' b) := by
  refine everywhere_of_step (.edit h hrow hedits hputs) fun hs he x hx => ?_
  rcases (hputs.mem_rows x).1 hx with rfl | ⟨hx, -⟩
  · have htag := hedits.tag_eq.trans ((hs.inOrder h).tag r hrow)
    exact .inr ⟨_, Kind.ofTag?_eq_some_iff.2 htag, hedit hs (he.copies h r hrow)⟩
  · exact .inl hx

/-- A fresh row joins the others. It is the only new one, so `hrow` is asked for it alone. -/
theorem everywhere_of_stores {k : Kind} {row : Row} {b : Store.Backend} (hstep : Step may t t')
    (htag : row.tag = k.tag) (hstores : t.Stores row b) (hrows : t'.rows = b.rows)
    (hrow : t.Sound → P t k row) : (everywhere P hP).rel t t' := by
  refine everywhere_of_step hstep fun hs _ x hx => ?_
  rw [hrows] at hx
  rcases (hstores.mem_rows hs x).1 hx with rfl | ⟨hx, -⟩
  · exact .inr ⟨k, Kind.ofTag?_eq_some_iff.2 htag, hrow hs⟩
  · exact .inl hx

/-- Rows may be written on this course, since they were checked before. A draw adds no row, and for
every other write the check is what `Checked` says of it. -/
theorem everywhere_writes : (everywhere P hP).Writes where
  write t t' hs hw := by
    cases hw with
    | draw =>
      have hstep : Step (Eq .write) t (t.withBackend t.store.backend.allocate.2) := .draw rfl
      exact everywhere_of_subset hstep fun hs r hr => hs.rows_draw ▸ hr
    | edit hrow hedits _ hputs hretains =>
      exact everywhere_of_written hrow hedits hputs fun _ => hP.edit hretains
    | @promote h row b hlive hrow htag haddress hstores hparent _ hproper hplaced =>
      have hstep : Step (Eq .write) t ((t.withBackend b).embody h row) :=
        .promote rfl h hlive hrow htag haddress hstores hparent
      have hlabel := ((hs.inOrder h).derived hlive hrow).2
      rw [hlabel] at htag hproper hplaced
      refine .trans (everywhere_of_stores hstep htag hstores rfl fun _ => hP.promote hproper hplaced) ?_
      exact everywhere_of_beside (Table.beside_claimPrimary _ _ _ _)
  create {t t'} _ hc := by
    cases hc with
    | draw =>
      have hstep : Step (Eq .write) t (t.withBackend t.store.backend.allocate.2) := .draw rfl
      exact everywhere_of_subset hstep fun hs r hr => hs.rows_draw ▸ hr
    | @insert k row b htag hstores hparent hproper hplaced =>
      have hstep : Step (Eq .write) t (t.withFresh row b) := .insert rfl k htag hstores hparent
      refine .trans (everywhere_of_stores hstep htag hstores (Table.rows_withFresh t row b)
        fun _ => hP.create hproper hplaced) ?_
      exact everywhere_of_beside (Table.beside_claimPrimary _ _ _ _)
    | @create k row b s htag hstores hparent hproper hplaced hnew =>
      have hstep : Step (Eq .write) t ((t.withFresh row b).adopt (.stored row.id) s) :=
        .create rfl k htag hstores hparent hnew
      refine .trans (everywhere_of_stores hstep htag hstores (Table.rows_withFresh t row b)
        fun _ => hP.create hproper hplaced) ?_
      exact everywhere_of_beside (Table.beside_claimPrimary _ _ _ _)
  note := aloof_everywhere.deaf.notes

/-- Rows may be taken out on this course, for fewer of them are left. A mark changes no row, and
what a removal notes stands beside the rows. -/
theorem everywhere_removes : (everywhere P hP).Removes where
  deaf := aloof_everywhere.deaf
  mark {t} h deleting _ := by
    have hstep : Step (Eq .remove) t (t.updateHandle h fun s => { s with deleting := deleting }) :=
      .mark rfl h deleting
    exact everywhere_of_subset hstep fun _ _ hr => hr
  removal {t t₁ t₂ h r} _ _ _ hrel hkey hremoval := by
    obtain ⟨b, hremoves, hbeside⟩ := hremoval.exists_release
    have hstep : Step (Eq .remove) t₁ ((t₁.withBackend b).release h r.id) := .takeOut rfl h hkey hremoves
    refine hrel.trans (.trans (everywhere_of_subset hstep fun _ x hx => ?_) (everywhere_of_beside hbeside))
    exact ((hremoves.mem_rows x).1 hx).1

/-- The row of a stored symbol is moved, if it may lie there. A designation may go along, and it
stands beside the rows. -/
theorem everywhere_of_readdressed {a : Address} (hmoved : t.Readdressed h a t')
    (hrow : ∀ r, t.Sound → (t.handle h).row = some r → P t (t.handle h).kind r →
      P t (t.handle h).kind { r with address := a }) : (everywhere P hP).rel t t' := by
  obtain ⟨r, b, hr, hputs, hbeside⟩ := hmoved.exists_written
  have hedits : t.Edits (Eq .readdress) (t.handle h) r { r with address := a } := .readdress rfl a
  refine .trans (everywhere_of_written hr hedits hputs fun hs => hrow r hs hr) ?_
  exact everywhere_of_beside hbeside

/-- Rows may be moved if the property does not depend on where they lie. -/
theorem everywhere_allows_readdress
    (hmove : ∀ {t : Table} {k : Kind} {r : Row} (a : Address), P t k r → P t k { r with address := a }) :
    (everywhere P hP).Allows .readdress :=
  fun _ _ _ a _ _ hmoved => everywhere_of_readdressed hmoved fun _ _ _ => hmove a

/-- A derived symbol has no row, so it may be moved anywhere. The copies of other handles are the
same. -/
theorem everywhere_allows_relocate : (everywhere P hP).Allows .relocate := by
  intro t h a _ hready hrow
  have hstep : Step (Eq .relocate) t { t.updateHandle h (·.relocated a) with
      pool := t.pool.rekey (.derived (t.handle h).address) (.derived a) } :=
    .relocate rfl h a hready.live hrow
  refine .trans (everywhere_of_subset hstep fun _ _ hr => hr) ?_
  exact everywhere_of_beside ⟨rfl, rfl, rfl, rfl, rfl, rfl⟩

end Course

/-- In a new table there is no row and no copy of one. So the property holds of all rows at the
start of every run. -/
theorem Table.IsNew.everywhere {rules : Rules} {P : Kind → Row → Prop} (hnew : t.IsNew rules) :
    t.Everywhere P := by
  refine ⟨fun r hr => ?_, fun k r hrow => ?_⟩
  · rw [hnew.rows_eq] at hr
    cases hr
  · rw [hnew.handle_eq] at hrow
    cases hrow

/-- Since a table was opened empty, a property has come to hold of all its rows if every move that
was allowed stays on the course. -/
theorem Runs.everywhere (hP : Table.Checked P) {rules : Rules} {allowed : Bool → Table → Move → Prop}
    {s₀ s : Situated σ} (hnew : s₀.table.IsNew rules) (hrun : Runs allowed false s₀ s)
    (hmove : ∀ (nested : Bool) (t : Table) (m : Move) (notify : Listener σ), allowed nested t m →
      Heeds (.everywhere P hP) notify → t.Sound →
      Ends t (m.action notify) fun _ t' => (Course.everywhere P hP).rel t t') :
    s.table.Everywhere (P s.table) :=
  Course.rel.everywhere (hrun.rel Course.everywhere_allows_plan hmove hnew.sound) hnew.sound hnew.everywhere

end SymbolTable
