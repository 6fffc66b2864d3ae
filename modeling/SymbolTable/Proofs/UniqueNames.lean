import SymbolTable.Proofs.Run

/-!
# Unique names

No two rows with names of their own have the same name, kind, address and scope
(`Table.NamesUnique`). A name is checked before it is written: between the check and the write
nobody acts on the table, so what the check found still holds when the row is put. As long as
symbols keep their addresses and rows are changed through the table alone, each step keeps names
unique (`Table.Step.namesUnique`), whichever way it leads to a write: by creating a symbol, by
renaming one, or by giving a derived one a row.
-/

namespace SymbolTable

open SymbolTable.Action
open Table (Path Step)

namespace Table

variable {t t' : Table} {may : Deed → Prop}

/-- Both rows have names of their own, the same one, are of the same kind, and lie at the same
address and in the same scope. -/
structure Namesakes (x y : Row) : Prop where
  left : x.provenance ≠ .default
  right : y.provenance ≠ .default
  address : x.address = y.address
  parent : x.parent = y.parent
  tag : x.tag = y.tag
  name : x.name = y.name

/-- No two rows are namesakes. -/
def NamesUnique (t : Table) : Prop :=
  ∀ x ∈ t.rows, ∀ y ∈ t.rows, Namesakes x y → x = y

/-- To be namesakes is symmetric, so the rows of a table may be compared in one order. -/
theorem Namesakes.symm {x y : Row} (h : Namesakes x y) : Namesakes y x :=
  ⟨h.right, h.left, h.address.symm, h.parent.symm, h.tag.symm, h.name.symm⟩

/-- The rows with a name that is free are not namesakes of a row with that name. So the only one
among them is the symbol for which the name was asked, if it is stored. -/
theorem NameFree.id_eq {a : Address} {name : String} {scope : Scope} {tag : UInt8}
    {except? : Option SymbolId} (h : t.NameFree a name scope tag except?) {x r : Row}
    (hx : x ∈ t.rows) (hsame : Namesakes x r) (haddress : r.address = a) (hname : r.name = name)
    (hparent : r.parent = scope) (htag : r.tag = tag) : some x.id = except? :=
  h x hx (hsame.address.trans haddress) (hsame.parent.trans hparent) (hsame.tag.trans htag)
    hsame.left (hsame.name.trans hname)

namespace NamesUnique

variable (h : t.NamesUnique)

include h

/-- Names stay unique where rows are only taken out. -/
theorem of_subset (hsub : ∀ x ∈ t'.rows, x ∈ t.rows) : t'.NamesUnique := by
  intro x hx y hy
  exact h x (hsub x hx) y (hsub y hy)

/-- A row takes the place of the one with its id, and has no other namesake. So uniqueness is
checked for the one row that is put. All others are compared as before. -/
theorem of_mem_rows {r : Row} (hmem : ∀ x, x ∈ t'.rows ↔ x = r ∨ x ∈ t.rows ∧ x.id ≠ r.id)
    (hfree : ∀ x ∈ t.rows, Namesakes x r → x.id = r.id) : t'.NamesUnique := by
  intro x hx y hy hsame
  rcases (hmem x).1 hx with rfl | ⟨hx, hxid⟩
  · rcases (hmem y).1 hy with rfl | ⟨hy, hyid⟩
    · rfl
    · exact absurd (hfree y hy hsame.symm) hyid
  · rcases (hmem y).1 hy with rfl | ⟨hy, hyid⟩
    · exact absurd (hfree x hx hsame) hxid
    · exact h x hx y hy hsame

/-- A fresh row is stored whose name, if it has one, is free. That it is free was checked before the
id was drawn, and drawing it changed no row. -/
theorem stores {row : Row} {b : Store.Backend} (hs : t.Sound) (hstores : t.Stores row b)
    (hrows : t'.rows = b.rows) : t'.NamesUnique := by
  have hmem : ∀ x, x ∈ t'.rows ↔ x = row ∨ x ∈ t.rows ∧ x.id ≠ row.id := by
    intro x
    rw [hrows]
    exact hstores.mem_rows hs x
  refine h.of_mem_rows hmem ?_
  intro x hx hsame
  cases (hstores.free hsame.right).id_eq hx hsame rfl rfl rfl rfl

/-- The row of a handle is edited, but keeps its address. Its name and scope were checked against
the others, if they are new, with its own row left out. -/
theorem edits {k : HandleId} {r r' : Row} {b : Store.Backend} (hreaddress : ¬ may .readdress)
    (hs : t.Sound) (he : t.Exact) (hrow : (t.handle k).row = some r)
    (hedits : t.Edits may (t.handle k) r r') (hputs : t.store.backend.Puts r' b)
    (hrows : t'.rows = b.rows) : t'.NamesUnique := by
  have hmem : ∀ x, x ∈ t'.rows ↔ x = r' ∨ x ∈ t.rows ∧ x.id ≠ r'.id := by
    intro x
    rw [hrows]
    exact hputs.mem_rows x
  refine h.of_mem_rows hmem ?_
  intro x hx hsame
  have horder := hs.inOrder k
  cases hedits with
  | mark _ hid htag haddress hparent hname hprovenance =>
    have hr : r ∈ t.rows := mem_of_row? ((he.mirrors k).row r hrow)
    have hsame' : Namesakes x r := ⟨hsame.left, fun hr => hsame.right (hprovenance.2 hr),
      hsame.address.trans haddress, hsame.parent.trans hparent, hsame.tag.trans htag,
      hsame.name.trans hname⟩
    rw [h x hx r hr hsame', hid]
  | rename _ plan hfree =>
    have hid : (t.handle k).id? = some r.id := congrArg Key.id? (horder.key r hrow)
    have hprovenance := hsame.right
    rw [provenance_apply] at hprovenance
    have heq := (hfree hprovenance).id_eq hx hsame (horder.address r hrow).symm rfl rfl
      (horder.tag r hrow)
    exact Option.some.inj (heq.trans hid)
  | readdress hmay => exact absurd hmay hreaddress

end NamesUnique

/-- Steps that move no symbol, in a table whose rows nobody else changes, keep names unique. The
proof goes through the steps. Two write, and they are the lemmas before this, and the others bring
no row. -/
theorem Step.namesUnique (h : Step may t t') (hreaddress : ¬ may .readdress)
    (hintrude : ¬ may .intrude) (hs : t.Sound) (he : t.Exact) (hu : t.NamesUnique) :
    t'.NamesUnique := by
  cases h with
  | aside h =>
    refine hu.of_subset ?_
    rw [h.rows_eq]
    exact fun x hx => hx
  | plan | adopt | refresh | vanish | mark | relocate => exact hu
  | draw =>
    refine hu.of_subset ?_
    rw [hs.rows_draw]
    exact fun x hx => hx
  | @insert _ k row b htag hstores | @create _ k row b s htag hstores =>
    exact hu.stores hs hstores (rows_withFresh t row b)
  | promote _ h _ _ _ _ hstores => exact hu.stores hs hstores rfl
  | edit h hrow hedits hputs => exact hu.edits hreaddress hs he hrow hedits hputs rfl
  | takeOut _ h hkey hremoves => exact hu.of_subset fun x hx => ((hremoves.mem_rows x).1 hx).1
  | intrudePut hmay | intrudeTake hmay => exact absurd hmay hintrude

/-- Names stay unique along any steps that move no symbol and go through the table, as long as ids
remain. The induction is on the steps, and the table has to be exact at each of them, which is why
ids have to remain to the end. -/
theorem Path.namesUnique (h : Path may t t') (hreaddress : ¬ may .readdress)
    (hrelocate : ¬ may .relocate) (hintrude : ¬ may .intrude) (hs : t.Sound) (he : t.Exact)
    (hlt : t'.drawn < UInt64.size - 1) (hu : t.NamesUnique) : t'.NamesUnique := by
  induction h with
  | refl => exact hu
  | tail hpath hstep ih =>
    have hs₁ := Path.sound hpath hs
    have hlt₁ := Nat.lt_of_le_of_lt (hstep.drawn_le hs₁) hlt
    have he₁ := Path.exact hpath hrelocate hintrude hs (fun _ => hlt₁) he
    exact hstep.namesUnique hreaddress hintrude hs₁ he₁ (ih hlt₁)

end Table

/-! ## Unique names in runs -/

/-- A move that gives no symbol another address and goes through the table. -/
def Move.staysPut (_nested : Bool) (_t : Table) : Move → Prop
  | .edit _ (.setAddress _) | .edit _ (.relocate _ _) | .put _ | .take _ => False
  | _ => True

/-- What such moves may do. -/
def Deed.staysPut (d : Deed) : Prop :=
  d = .write ∨ d = .remove ∨ d = .plan

/-- Moves that leave symbols where they are do no deed that moves one. So a run of such moves leads
along steps of those deeds alone. -/
theorem Move.permitted_staysPut (nested : Bool) (t : Table) (m : Move)
    (h : m.staysPut nested t) : m.Permitted Deed.staysPut t := by
  cases m with
  | edit k e =>
    refine ⟨fun d hd => ?_, fun oldBase newBase he => ?_⟩
    · cases e with
      | setAddress | relocate => exact h.elim
      | setPrimary => cases hd
      | delete =>
        cases hd
        exact .inr (.inl rfl)
      | _ =>
        cases hd
        exact .inl rfl
    · subst he
      exact h.elim
  | create => exact .inl rfl
  | query | search => trivial
  | put | take => exact h.elim

variable {σ : Type} {s : Situated σ}

/-- **Names are unique.** Whatever symbols are created, renamed, moved to other scopes, marked and
deleted in a table that was opened empty, with whatever rules, whichever calls of the store fail and
whatever the listeners do in between: no two rows with names of their own have the same name, kind,
address and scope, as long as ids remain. -/
theorem Runs.names_are_unique {rules : Rules} {s₀ : Situated σ} (hnew : s₀.table.IsNew rules)
    (hrun : Runs Move.staysPut false s₀ s) (hlt : s.table.drawn < UInt64.size - 1) :
    s.table.NamesUnique := by
  have hpath := hrun.path (.inr (.inr rfl)) Move.permitted_staysPut hnew.sound
  have hu : s₀.table.NamesUnique := by
    intro x hx
    rw [hnew.rows_eq] at hx
    cases hx
  refine Path.namesUnique hpath ?_ ?_ ?_ hnew.sound hnew.exact hlt hu <;> exact nofun

/-- Three labels are created at one address. The first two are each given the name of the other,
which is refused, and the third one is deleted, after which the first one takes over its name. Two
rows with names of their own are left, and the names differ. -/
theorem Runs.names_are_unique_of_labels :
    let s₀ : Situated Unit := ⟨.empty default .standard, (), 0⟩
    let label (name : String) : Move :=
      .create ⟨name, .label, .ram 16, .global, .userDefined, 0, 0, none⟩
    let go (s : Situated Unit) (m : Move) := ((m.action Listener.idle).run s).2
    let s := [label "start", label "main", label "exit", .edit 0 (.setName "main" .userDefined),
      .edit 1 (.setName "start" .userDefined), .edit 2 .delete, .edit 0 (.setName "exit" .userDefined)].foldl go s₀
    s₀.table.IsNew .standard ∧ Runs Move.staysPut false s₀ s ∧ s.table.drawn < UInt64.size - 1 ∧
      s.table.rows.map (fun r => (r.name, r.address)) = [("exit", .ram 16), ("main", .ram 16)] ∧
      s.table.NamesUnique := by
  intro s₀ label go s
  have hnew : s₀.table.IsNew .standard := .memory _ _ _
  have hrun : Runs Move.staysPut false s₀ s :=
    .move (.move (.move (.move (.move (.move (.move .refl trivial .idle) trivial .idle) trivial .idle) trivial .idle)
      trivial .idle) trivial .idle) trivial .idle
  have hlt : s.table.drawn < UInt64.size - 1 := by decide
  exact ⟨hnew, hrun, hlt, by decide +kernel, Runs.names_are_unique hnew hrun hlt⟩

end SymbolTable
