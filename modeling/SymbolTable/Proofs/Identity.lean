import SymbolTable.Proofs.Action.Finding
import SymbolTable.Proofs.Action.Keeping
import SymbolTable.Proofs.Run

/-!
# One handle for a key

The handle of a symbol is the symbol, as far as anyone outside can tell: two handles with one key
would be one symbol with two identities. The pool prevents that as long as the key of a handle
changes only to one that is free. A draw of an id gives such a key, but a derived symbol may be
moved to the address of another one, whose place in the pool it then takes without a warning.

So keys tell symbols apart if no derived symbol is moved onto another one (`Runs.keys_identify`),
and they need not if one is (`Runs.keys_do_not_identify`). Listeners may act in the middle of every
move, and calls of the store may fail.
-/

namespace SymbolTable

open SymbolTable.Action
open Table (Path Step)

variable {σ : Type} {t t' : Table} {notify : Listener σ}

/-! ## Moves that leave every symbol its key -/

/-- A move through the table that takes no derived symbol to the address of another one. -/
structure Move.DisplacesNone (t : Table) (m : Move) : Prop where
  goesThrough : m.goesThrough
  free : ∀ h oldBase newBase, m = .edit h (.relocate oldBase newBase) →
    (t.handle h).isDerived = true →
    (t.handle h).address.relocated oldBase newBase ≠ (t.handle h).address →
    t.Underived ((t.handle h).address.relocated oldBase newBase)

/-- The course on which tables stay exact. -/
def Course.exacting : Course :=
  .keeping (fun _ => True) (fun _ => True) fun _ _ _ _ _ _ => trivial

namespace Course

/-- Steps that neither move derived symbols nor go behind the table's back are on the course. -/
theorem exacting_of_path {may : Deed → Prop} (hpath : Path may t t') (hrelocate : ¬ may .relocate)
    (hintrude : ¬ may .intrude) : exacting.rel t t' :=
  keeping_of_path (fun _ _ => trivial) hpath hrelocate hintrude fun _ _ _ _ => trivial

theorem exacting_of_beside (hbeside : t.Beside t') : exacting.rel t t' :=
  keeping_of_beside hbeside fun _ _ _ => trivial

/-- Every deed keeps tables exact that neither moves a derived symbol nor goes behind the table's
back. -/
theorem exacting_allows {d : Deed} (hrelocate : d ≠ .relocate) (hintrude : d ≠ .intrude) :
    exacting.Allows d :=
  allows_of_path fun hpath => exacting_of_path hpath hrelocate hintrude

theorem exacting_designates : exacting.Designates :=
  fun _ _ _ _ => exacting_of_beside ⟨rfl, rfl, rfl, rfl, rfl, rfl⟩

/-- A derived symbol may be moved to where no other one is. -/
theorem exacting_transferred {h : HandleId} {a : Address} (hlive : (t.handle h).deleted = false)
    (hrow : (t.handle h).row = none) (hfree : t.Underived a) : exacting.rel t (t.transferred h a) := by
  refine ⟨Table.path_transferred trivial hlive hrow, fun hs _ he _ => ⟨?_, trivial⟩⟩
  exact he.transferred hs hlive hrow hfree

end Course

namespace Move.DisplacesNone

/-- Every move through the table but a relocation displaces no derived symbol. -/
theorem of_ne_relocate {m : Move} (hm : m.goesThrough)
    (hne : ∀ h oldBase newBase, m ≠ .edit h (.relocate oldBase newBase)) : m.DisplacesNone t :=
  ⟨hm, fun h oldBase newBase heq => (hne h oldBase newBase heq).elim⟩

/-- A relocation displaces no derived symbol if there is none where the symbol goes. Nothing of this
kind is asked of other edits. -/
theorem relocate {h : HandleId} {oldBase newBase : Address}
    (hfree : t.Underived ((t.handle h).address.relocated oldBase newBase)) :
    (Move.edit h (.relocate oldBase newBase)).DisplacesNone t := by
  refine ⟨trivial, ?_⟩
  rintro _ _ _ ⟨⟩ - -
  exact hfree

/-- On a course that allows everything else, a derived symbol is moved to where no other one is. The
premises are what the course has to take besides. This one lemma serves for all courses on which
derived symbols have to be moved with care. -/
theorem ends_rel {c : Course} {m : Move} (hm : m.DisplacesNone t) (hn : Heeds c notify) (ht : t.Sound)
    (hwrites : c.Writes) (hdesignates : c.Designates) (hreaddress : c.Allows .readdress)
    (hrelocate : ∀ (h : HandleId) (a : Address), (t.handle h).deleted = false → (t.handle h).row = none →
      t.Underived a → c.rel t (t.transferred h a))
    (hdelete : ∀ h, Follows c (delete notify h)) :
    Ends t (m.action notify) fun _ t' => c.rel t t' := by
  by_cases hother : ∃ h e, m = .edit h e ∧
      (e = .delete ∨ ∃ oldBase newBase, e = .relocate oldBase newBase ∧ (t.handle h).isDerived = true)
  · obtain ⟨h, e, rfl, rfl | ⟨oldBase, newBase, rfl, hderived⟩⟩ := hother
    · exact Ends.rel_map (Ends.rel_map (hdelete h t ht))
    · refine Ends.rel_map (Ends.rel_map (ends_relocate ht h oldBase newBase (fun t₁ t₂ hr _ hmoved => ?_)
        fun a _ ha hne => ?_))
      · exact (hr.rel ht).trans (hreaddress t₁ t₂ h _ (hr.path.sound ht) hr.isReady hmoved)
      · subst ha
        obtain ⟨hrow, hlive⟩ := Handle.isDerived_iff.1 hderived
        exact hrelocate h _ hlive hrow (hm.free h oldBase newBase rfl hderived hne)
  · have hpermitted : m.Permitted c.Allows t := by
      refine .of_goesThrough hm.goesThrough hwrites ?_ (fun _ _ _ _ => hreaddress) ?_
      · exact fun h heq => absurd ⟨h, _, heq, .inl rfl⟩ hother
      · exact fun h oldBase newBase heq hderived =>
          absurd ⟨h, _, heq, .inr ⟨oldBase, newBase, rfl, hderived⟩⟩ hother
    exact Move.ends_rel hn hdesignates ht hpermitted

/-- A move of this kind stays on the course, however its listener acts that stays on it. Each kind
of deed is allowed on it, and a derived symbol is moved to where there is no other one. -/
theorem ends {m : Move} (hm : m.DisplacesNone t) (hn : Heeds .exacting notify) (ht : t.Sound) :
    Ends t (m.action notify) fun _ t' => Course.exacting.rel t t' :=
  hm.ends_rel hn ht (Course.exacting_allows (d := .write) nofun nofun) Course.exacting_designates
    (Course.exacting_allows nofun nofun) (fun _ _ hlive hrow hfree => Course.exacting_transferred hlive hrow hfree)
    (follows_delete hn (Course.exacting_allows (d := .remove) nofun nofun))

end Move.DisplacesNone

section

variable {rules : Rules} {s₀ s : Situated σ}

/-- A run of such moves stays on the course. -/
theorem Runs.exacting (hnew : s₀.table.IsNew rules) (hrun : Runs (fun _ t m => m.DisplacesNone t) false s₀ s) :
    Course.exacting.rel s₀.table s.table :=
  hrun.rel (Course.exacting_allows nofun nofun) (fun _ _ _ _ hm => hm.ends) hnew.sound

/-- A table is sound after such a run. -/
theorem Runs.sound_of_displacesNone (hnew : s₀.table.IsNew rules)
    (hrun : Runs (fun _ t m => m.DisplacesNone t) false s₀ s) : s.table.Sound :=
  (hrun.exacting hnew).sound hnew.sound

/-- A table is exact after such a run, as long as ids are left. Most of what is said of handles
begins here. -/
theorem Runs.exact_of_displacesNone (hnew : s₀.table.IsNew rules)
    (hrun : Runs (fun _ t m => m.DisplacesNone t) false s₀ s) (hlt : s.table.drawn < UInt64.size - 1) :
    s.table.Exact :=
  ((hrun.exacting hnew).keeps hnew.sound hlt hnew.exact trivial).1

end

/-! ## Keys -/

/-- Symbols are told apart by their keys, and a search answers with the symbol of the key. -/
structure Situated.Identifies (s : Situated σ) : Prop where
  /-- Symbols that are there and have the same key are the same. -/
  eq_of_key : ∀ h k, ((isValid h).run s).1 = .ok true → ((isValid k).run s).1 = .ok true →
    (s.table.handle k).key = (s.table.handle h).key → k = h
  lookup_key : ∀ id h, ((lookup id).run s).1 = .ok (some h) →
    (((lookup id).run s).2.table.handle h).key = .stored id
  derivedAt_key : ∀ a h, ((derivedAt a).run s).1 = .ok (some h) →
    (((derivedAt a).run s).2.table.handle h).key = .derived a

/-- In an exact table symbols are told apart by their keys, since the pool holds one handle for
each. -/
theorem Situated.identifies {s : Situated σ} (hs : s.table.Sound) (he : s.table.Exact) : s.Identifies where
  eq_of_key h k hh hk hkey :=
    he.pooled.eq_of_key (ends_isValid hs h s rfl hh) (ends_isValid hs k s rfl hk) hkey
  lookup_key id h hfound := (ends_lookup hs he id s rfl (some h) hfound).2
  derivedAt_key a h hfound := ends_derivedAt hs he a s rfl h hfound

variable {s : Situated σ}

/-- **Keys identify symbols.** Whatever was done through a table since it was opened empty, by moves
and by their listeners, and whichever calls of the store failed: symbols that are there and have the
same key are the same, and what is found for a key has the key. No derived symbol was moved to the
address of another one, and there are ids left. -/
theorem Runs.keys_identify {rules : Rules} {s₀ : Situated σ} (hnew : s₀.table.IsNew rules)
    (hrun : Runs (fun _ t m => m.DisplacesNone t) false s₀ s) (hlt : s.table.drawn < UInt64.size - 1) :
    s.Identifies :=
  Situated.identifies (hrun.sound_of_displacesNone hnew) (hrun.exact_of_displacesNone hnew hlt)

/-- A derived symbol is moved to where there is none, another one is derived where it was and gets a
name, with which it is stored, and its id is looked up. -/
theorem Runs.keys_identify_of_moved :
    let s₀ : Situated Unit := ⟨.empty default .standard, (), 0⟩
    let go (s : Situated Unit) (m : Move) := ((m.action Listener.idle).run s).2
    let s := [.search (.derivedAt (.ram 16)), .edit 0 (.relocate (.ram 16) (.ram 32)),
      .search (.derivedAt (.ram 16)), .edit 1 (.setName "x" .userDefined),
      .search (.symbol ⟨1, by decide⟩)].foldl go s₀
    s₀.table.IsNew .standard ∧ Runs (fun _ t m => m.DisplacesNone t) false s₀ s ∧
      s.table.drawn < UInt64.size - 1 ∧ s.Identifies := by
  intro s₀ go s
  have hnew : s₀.table.IsNew .standard := .memory _ _ _
  have hrun : Runs (fun _ t m => m.DisplacesNone t) false s₀ s :=
    .move (.move (.move (.move (.move .refl (.of_ne_relocate trivial nofun) .idle)
      (.relocate (by decide)) .idle) (.of_ne_relocate trivial nofun) .idle)
      (.of_ne_relocate trivial nofun) .idle) (.of_ne_relocate trivial nofun) .idle
  have hlt : s.table.drawn < UInt64.size - 1 := by decide
  exact ⟨hnew, hrun, hlt, Runs.keys_identify hnew hrun hlt⟩

/-- Of two derived symbols one is moved to the address of the other, and the other gets a name. The
id under which it is stored then finds the one that was moved, which is derived. -/
theorem Runs.keys_do_not_identify :
    let id : SymbolId := ⟨1, by decide⟩
    let s₀ : Situated Unit := ⟨.empty default .standard, (), 0⟩
    let go (s : Situated Unit) (m : Move) := ((m.action Listener.idle).run s).2
    let s₁ := [.search (.derivedAt (.ram 16)), .search (.derivedAt (.ram 32)),
      .edit 0 (.relocate (.ram 16) (.ram 32))].foldl go s₀
    let s₂ := go s₁ (.edit 1 (.setName "x" .userDefined))
    s₀.table.IsNew .standard ∧ Runs (fun _ _ m => m.goesThrough) false s₀ s₂ ∧
      s₂.table.drawn < UInt64.size - 1 ∧
      ((isValid 0).run s₁).1 = .ok true ∧ ((isValid 1).run s₁).1 = .ok true ∧
      (s₁.table.handle 0).key = (s₁.table.handle 1).key ∧
      ((lookup id).run s₂).1 = .ok (some 0) ∧
      (((lookup id).run s₂).2.table.handle 0).key = .derived (.ram 32) := by
  intro id s₀ go s₁ s₂
  have hrun : Runs (fun _ _ m => m.goesThrough) false s₀ s₂ :=
    .move (.move (.move (.move .refl trivial .idle) trivial .idle) trivial .idle) trivial .idle
  exact ⟨.memory _ _ _, hrun, by decide, by decide, by decide, by decide, by decide, by decide⟩

end SymbolTable
