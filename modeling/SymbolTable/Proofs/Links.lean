import SymbolTable.Proofs.Chronicle
import SymbolTable.Proofs.Clearing
import SymbolTable.Proofs.Identity
import SymbolTable.Proofs.Primaries

/-!
# Links in runs with listeners

A deletion leaves no links behind to the symbols that it takes out: no row lies in a scope that is
gone, and no symbol that is gone is designated. Listeners may rename, mark, designate, move and
delete symbols in the middle of it. But a listener may not give a symbol that is being deleted
another address, or move another symbol into it (`Move.Spares`): the members of a scope are listed,
and the address of a symbol is read, before listeners are called (`Chronicle.links_dangle`).
-/

namespace SymbolTable

open SymbolTable.Action
open Table (Path)

variable {σ : Type} {t : Table} {notify : Listener σ} {h : HandleId}

/-! ## Moves that leave alone what is being deleted -/

/-- The scope to which an edit moves a symbol. -/
def Edit.scope? : Edit → Option Scope
  | .rename _ scope _ | .setScope scope => some scope
  | _ => none

/-- A move through the table that takes no derived symbol to the address of another one, gives no
symbol that is being deleted another address, and moves none into one that is. Symbols are created
where no deletion is going on. -/
structure Move.Spares (t : Table) (m : Move) : Prop where
  displacesNone : m.DisplacesNone t
  create : ∀ draft, m = .create draft → ∀ k, (t.handle k).deleting = false
  enters : ∀ h e id, m = .edit h e → e.scope? = some (.of id) → ¬ t.Dying id
  moves : ∀ h e, m = .edit h e → e.deed? = some .readdress → (t.handle h).deleting = false

namespace Move.Spares

/-- Where no deletion is going on, there is nothing to be left alone. A listener that acts when no
handle is marked may do what any mover may. -/
theorem of_idle {m : Move} (hm : m.DisplacesNone t) (hidle : ∀ x ∈ t.handles, x.deleting = false) :
    m.Spares t := by
  have hall (k : HandleId) : (t.handle k).deleting = false := by
    rw [Table.handle, List.getD_eq_getElem?_getD]
    cases hget : t.handles[k]? with
    | none => rfl
    | some x => exact hidle x (List.mem_of_getElem? hget)
  refine ⟨hm, fun _ _ => hall, fun _ _ _ _ _ => ?_, fun h _ _ _ => hall h⟩
  rintro ⟨k, hmarked, -⟩
  cases (hall k).symm.trans hmarked

/-- An edit that does not move a symbol. It may rename a symbol or mark it even while the symbol is
being deleted, for its row stays where it is. -/
theorem of_edit {e : Edit} (hscope : ∀ id, e.scope? ≠ some (.of id)) (hdeed : e.deed? ≠ some .readdress) :
    (Move.edit h e).Spares t where
  displacesNone := by
    refine .of_ne_relocate trivial ?_
    rintro _ _ _ ⟨⟩
    exact hdeed rfl
  create _ := nofun
  enters := by
    rintro _ _ id ⟨⟩ hsome
    exact absurd hsome (hscope id)
  moves := by
    rintro _ _ ⟨⟩ hsome
    exact absurd hsome hdeed

/-- A move that spares the rows stays on the course on which they are anchored, whatever its
listener does that stays on it. -/
theorem ends {m : Move} (hm : m.Spares t) (hn : Heeds .shielding notify) (ht : t.Sound) :
    Ends t (m.action notify) fun _ t' => Course.shielding.rel t t' := by
  have hnote := Course.aloof_shielding.deaf.notes
  cases m with
  | create draft =>
    refine Ends.rel_map (ends_create hn hnote ht (fun t' hc => ?_) draft)
    exact Course.shielding_created hc (hm.create draft rfl)
  | edit h e =>
    have hwritten {scope : Scope} (hscope : e.scope? = some scope) {t₁ t₂ : Table}
        (hpath : Path Table.upkeep t t₁)
        (hw : t₁.Written (Eq scope) t₂) : Course.shielding.rel t₁ t₂ := by
      refine Course.shielding_written hw ?_
      rintro id rfl hdying
      exact hm.enters h e id rfl hscope (hdying.of_upkeep hpath ht)
    cases e with
    | rename name scope p =>
      exact Ends.rel_map (Ends.rel_map (ends_rename hn hnote ht name p (fun _ _ _ _ => rfl)
        fun t₁ t₂ hpath hw => hwritten rfl hpath hw))
    | setScope scope =>
      exact Ends.rel_map (Ends.rel_map (ends_setScope hn hnote ht (fun _ _ _ _ => rfl)
        fun t₁ t₂ hpath hw => hwritten rfl hpath hw))
    | setAddress a =>
      refine Ends.rel_map (Ends.rel_map (ends_setAddress hn ht h a fun t₁ r b hr hrow hk hputs => ?_))
      refine (hr.rel ht).trans (Course.shielding_readdressed (.alone hrow hk hputs) ?_)
      rw [hr.path.deleting_eq not_false, hm.moves h _ rfl rfl]
    | relocate oldBase newBase =>
      refine Ends.rel_map (Ends.rel_map (ends_relocate ht h oldBase newBase (fun t₁ t₂ hr _ hmoved => ?_)
        fun a hderived ha hne => ?_))
      · refine (hr.rel ht).trans (Course.shielding_readdressed hmoved ?_)
        rw [hr.path.deleting_eq not_false, hm.moves h _ rfl rfl]
      · subst ha
        obtain ⟨hrow, hlive⟩ := Handle.isDerived_iff.1 hderived
        exact Course.shielding_transferred hlive hrow
          (hm.displacesNone.free h oldBase newBase rfl hderived hne)
    | delete => exact Ends.rel_map (Ends.rel_map (follows_delete_shielding hn h t ht))
    | setProvenance | setPinned | setName | setData1 | setData2 | setData3 | setPrimary =>
      refine Follows.map (follows_perform_inPlace hn Course.shielding_designates hnote
        Course.shielding_writesInPlace h ?_) t ht
      trivial
  | query h q => exact Follows.map (follows_answer h q) t ht
  | search what => exact what.follows t ht
  | put | take => exact hm.displacesNone.goesThrough.elim

end Move.Spares

/-! ## No link dangles -/

variable {s₀ s : Situated σ}

/-- In a table that has just been opened there are no rows that could lie in a scope that is
gone. -/
theorem Table.Anchored.of_isNew {rules : Rules} (hnew : t.IsNew rules) (hrules : rules.Steady)
    (hworks : t.store.Works) : t.Anchored := by
  have hrows : ∀ x, x ∉ t.rows := fun x hx => by
    rw [hnew.rows_eq] at hx
    cases hx
  exact ⟨.of_isNew hnew hrules hworks, hnew.closed_eq, fun x hx => absurd hx (hrows x),
    fun x hx => absurd hx (hrows x)⟩

/-- **No link dangles.** Whatever is done to a table that was opened empty, and whatever its
listeners do in the middle of that, deletions of any symbols included: when it is done, every row
lies in a scope that is stored, and every symbol that is designated at an address is stored there
and may be primary. So when a deletion has ended, no row lies in a symbol that it took out, and no
such symbol is designated. While a symbol is being deleted, it is given no other address and nothing
is moved into it, and nothing is created. The store works, listeners log what they are told, rows
are changed through the table alone, no derived symbol is relocated onto another one, symbols that
may be primary do not move alone, and there are ids left. -/
theorem Chronicle.no_link_dangles {rules : Rules} (hnew : s₀.table.IsNew rules) (hrules : rules.Steady)
    (hworks : s₀.table.store.Works) (hrun : Chronicle (fun _ t m => m.Spares t) false s₀ s)
    (hlt : s.table.drawn < UInt64.size - 1) :
    (∀ x ∈ s.table.rows, ∀ id, x.parent = .of id → s.table.HasScope id) ∧
      ∀ a id, s.table.facts.primaryAt a = some id → s.table.Eligible a id := by
  have hrel : Course.shielding.rel s₀.table s.table :=
    hrun.rel Course.aloof_shielding.logs (fun _ _ _ _ hm hn ht => hm.ends hn ht) hnew.sound
  obtain ⟨-, ha, hshields⟩ := hrel.2 hnew.sound hlt hnew.exact (.of_isNew hnew hrules hworks)
  refine ⟨fun x hx id hparent => (ha.anchored x hx id hparent).resolve_right ?_, ha.regular.designated⟩
  -- no deletion is going on at the end
  rintro ⟨k, hmarked, -⟩
  rw [hshields.guards.marks, hnew.handle_eq] at hmarked
  cases hmarked

/-- Whenever the listener is told of a removal, it designates a label elsewhere, and deletes a
symbol that lay in the scope of the one that is removed. -/
theorem Chronicle.no_link_dangles_of_disturbed :
    let s₀ : Situated Unit := ⟨.empty default .standard, (), 0⟩
    let new (name : String) (k : Kind) (a : Address) (scope : Scope) : Move :=
      .create ⟨name, k, a, scope, .userDefined, 0, 0, none⟩
    let quiet (s : Situated Unit) (m : Move) := ((m.action Listener.recorder).run s).2
    let meddler : Listener Unit := fun e x =>
      if e.change.sort = .removed then [.edit 3 .setPrimary, .edit 2 .delete].foldl quiet (x.logged e)
      else x.logged e
    let go (s : Situated Unit) (m : Move) := ((m.action meddler).run s).2
    let s := [new "outer" .namespaceScope .nowhere .global,
      new "x" .label (.ram 16) (.of ⟨1, by decide⟩), new "y" .label (.ram 16) (.of ⟨1, by decide⟩),
      new "z" .label (.ram 16) .global, .edit 0 .delete].foldl go s₀
    s₀.table.IsNew .standard ∧ Rules.standard.Steady ∧ s₀.table.store.Works ∧
      Chronicle (fun _ t m => m.Spares t) false s₀ s ∧ s.table.drawn < UInt64.size - 1 ∧
      s.table.rows.map (·.id) = [⟨4, by decide⟩] ∧
      (∀ x ∈ s.table.rows, ∀ id, x.parent = .of id → s.table.HasScope id) ∧
      ∀ a id, s.table.facts.primaryAt a = some id → s.table.Eligible a id := by
  intro s₀ new quiet meddler go s
  have hnew : s₀.table.IsNew .standard := .memory _ _ _
  have hworks : s₀.table.store.Works := fun _ _ _ => rfl
  have hmeddler (e : Event) (x : Situated Unit) :
      Chronicle (fun _ t m => m.Spares t) true (x.logged e) (meddler e x) := by
    show Chronicle _ _ _ (if e.change.sort = .removed then _ else _)
    split
    · exact .move (.move .refl (.of_edit nofun nofun) Chronicle.recorder) (.of_edit nofun nofun)
        Chronicle.recorder
    · exact .refl
  have hrun : Chronicle (fun _ t m => m.Spares t) false s₀ s :=
    .move (.move (.move (.move (.move .refl
      (.of_idle (.of_ne_relocate trivial nofun) (by decide)) hmeddler)
      (.of_idle (.of_ne_relocate trivial nofun) (by decide)) hmeddler)
      (.of_idle (.of_ne_relocate trivial nofun) (by decide)) hmeddler)
      (.of_idle (.of_ne_relocate trivial nofun) (by decide)) hmeddler)
      (.of_edit nofun nofun) hmeddler
  have hlt : s.table.drawn < UInt64.size - 1 := by decide +kernel
  exact ⟨hnew, Rules.steady_standard, hworks, hrun, hlt, by decide +kernel,
    Chronicle.no_link_dangles hnew Rules.steady_standard hworks hrun hlt⟩

/-- A function with a label in it is deleted. When the listener is told that the label is removed,
it relocates the function and moves another label into it. The label stays there when the function
is gone, and the function is still designated where it was relocated to. -/
theorem Chronicle.links_dangle :
    let f : SymbolId := ⟨1, by decide⟩
    let s₀ : Situated Unit := ⟨.empty default .standard, (), 0⟩
    let new (name : String) (k : Kind) (a : UInt64) (scope : Scope) : Move :=
      .create ⟨name, k, .ram a, scope, .userDefined, 0, 0, none⟩
    let quiet (s : Situated Unit) (m : Move) := ((m.action Listener.recorder).run s).2
    let meddler : Listener Unit := fun e x =>
      if e.key = .stored ⟨2, by decide⟩ ∧ e.change.sort = .removed ∧ (x.table.handle 0).isDerived = false then
        [.edit 0 (.relocate (.ram 16) (.ram 48)), .edit 2 (.setScope (.of f))].foldl quiet (x.logged e)
      else x.logged e
    let go (s : Situated Unit) (m : Move) := ((m.action meddler).run s).2
    let s₁ := [new "f" .function 16 .global, new "x" .label 16 (.of f),
      new "y" .label 32 .global].foldl go s₀
    let s₂ := go s₁ (.edit 0 .delete)
    s₀.table.IsNew .standard ∧ s₀.table.store.Works ∧
      Chronicle (fun _ t m => m.DisplacesNone t) false s₀ s₂ ∧ s₂.table.drawn < UInt64.size - 1 ∧
      ((delete meddler 0).run s₁).1 = .ok true ∧ s₂.table.row? f = none ∧
      s₂.table.rows.map (fun x => (x.id, x.parent)) = [(⟨3, by decide⟩, .of f)] ∧
      s₂.table.facts.primaryAt (.ram 48) = some f := by
  intro f s₀ new quiet meddler go s₁ s₂
  have hmeddler (e : Event) (x : Situated Unit) :
      Chronicle (fun _ t m => m.DisplacesNone t) true (x.logged e) (meddler e x) := by
    show Chronicle _ _ _ (if e.key = _ ∧ _ ∧ (x.table.handle 0).isDerived = false then _ else _)
    by_cases hmeddles : e.key = .stored ⟨2, by decide⟩ ∧ e.change.sort = .removed ∧
        (x.table.handle 0).isDerived = false
    · rw [if_pos hmeddles]
      refine .move (.move .refl ⟨trivial, ?_⟩ Chronicle.recorder) (.of_ne_relocate trivial nofun)
        Chronicle.recorder
      rintro _ _ _ ⟨⟩ hderived
      cases hmeddles.2.2.symm.trans hderived
    · rw [if_neg hmeddles]
      exact .refl
  have hrun : Chronicle (fun _ t m => m.DisplacesNone t) false s₀ s₂ :=
    .move (.move (.move (.move .refl
      (.of_ne_relocate trivial nofun) hmeddler)
      (.of_ne_relocate trivial nofun) hmeddler)
      (.of_ne_relocate trivial nofun) hmeddler)
      (.of_ne_relocate trivial nofun) hmeddler
  exact ⟨.memory _ _ _, fun _ _ _ => rfl, hrun, by decide +kernel, by decide +kernel, by decide +kernel,
    by decide +kernel, by decide +kernel⟩

end SymbolTable
