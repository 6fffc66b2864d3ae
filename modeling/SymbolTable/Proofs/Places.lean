import SymbolTable.Proofs.Everywhere
import SymbolTable.Proofs.Exclusion

/-!
# Symbols lie where their kind can

By the usual rules a scope lies nowhere, a label or a function without a name lies in memory, for it
is called after its place, and so does every derived symbol. A symbol is stored with such an address
and keeps it: of those that can be given another one, variables, the address says nothing. But a
block may be moved anywhere, and it takes with it what lies in it without a look at the kind of the
symbol: a scope may come to lie somewhere, and a function without a name or a derived symbol on the
stack (`Runs.symbols_are_misplaced`).

As long as no block takes a symbol to where its kind cannot lie (`Move.Suits`), all are where they
can be (`Runs.symbols_lie_where_they_can`). For the rows this follows from what is checked before
they are stored (`Table.Placed`), for derived symbols from where they are first pooled
(`Table.Stride.inMemory`).
-/

namespace SymbolTable

open SymbolTable.Action
open Table (Path Step upkeep)

variable {σ : Type} {t t' : Table} {may : Deed → Prop} {notify : Listener σ} {h k : HandleId} {m : Move}

namespace Table

/-! ## Rows -/

/-- By the usual rules, the row of a symbol of this kind lies where it may lie. -/
def UsuallyPlaced (t : Table) (k : Kind) (r : Row) : Prop :=
  t.rules = .standard → t.Placed k r

/-- That rows lie where they may is checked before they are stored, and depends on the rules and the
row alone. Derived symbols become labels, which lie at an address under the usual rules. -/
theorem checked_usuallyPlaced : Checked UsuallyPlaced where
  frame hframe hplaced hrules := (hplaced (hframe.rules.symm.trans hrules)).congr hframe
  edit hretains hplaced hrules := hretains.placed (hplaced hrules)
  create _ hplaced _ := hplaced
  promote _ hplaced hrules := by
    have hlocated : (Rules.standard.capabilities .label).located = true := by decide
    exact hplaced (hrules ▸ hlocated)

/-- A symbol that may be given another address is not called after it, and may lie anywhere. Of
variables nothing is wanted by the usual rules, whatever their address is, so they may be given
any. -/
theorem usuallyPlaced_of_movable {k : Kind} {r : Row} (hmovable : t.rules.movable k = true) :
    t.UsuallyPlaced k r := by
  intro hrules
  have hfree : Rules.standard.movable k = true → (Rules.standard.capabilities k).stem? = none ∧
      (Rules.standard.capabilities k).located = true := by
    cases k <;> decide
  rw [hrules] at hmovable
  obtain ⟨hstem, hlocated⟩ := hfree hmovable
  constructor
  · intro _ hstemmed
    rw [hrules, hstem] at hstemmed
    cases hstemmed
  · intro hunlocated
    rw [hrules, hlocated] at hunlocated
    cases hunlocated

/-! ## Derived symbols -/

/-- Derived symbols lie in memory. -/
def InMemory (t : Table) : Prop :=
  ∀ k, (t.handle k).isDerived = true → (t.handle k).address.isMemory = true

/-- A symbol that is derived once a fresh row is stored was so before, in the same place. The symbol
derived from the address of the row is dropped, and no other handle is changed. -/
theorem of_isDerived_withFresh {row : Row} {b : Store.Backend}
    (hk : ((t.withFresh row b).handle k).isDerived = true) :
    (t.handle k).isDerived = true ∧ ((t.withFresh row b).handle k).address = (t.handle k).address := by
  rw [withFresh, handle_dropDerived] at hk ⊢
  split at hk
  · cases (Handle.isDerived_iff.1 hk).2
  · rename_i hpool
    rw [if_neg hpool]
    exact ⟨hk, rfl⟩

/-- A symbol that is derived after a step that moves none was so before, in the same place, or it is
new. To be new is to be beyond the handles that there were. The proof goes through the steps, and
only two of them make a derived symbol or move one. -/
theorem Step.of_isDerived (hstep : Step may t t') (hrelocate : ¬ may .relocate)
    (hk : (t'.handle k).isDerived = true) :
    (t.handle k).isDerived = true ∧ (t'.handle k).address = (t.handle k).address ∨
      t.handles.length ≤ k := by
  cases hstep with
  | aside hbeside =>
    rw [hbeside.handle] at hk ⊢
    exact .inl ⟨hk, rfl⟩
  | plan | draw | intrudePut | intrudeTake => exact .inl ⟨hk, rfl⟩
  | adopt s =>
    rw [handle_adopt] at hk ⊢
    split at hk
    · rename_i hnew
      exact .inr (Nat.le_of_eq hnew.symm)
    · rename_i hold
      rw [if_neg hold]
      exact .inl ⟨hk, rfl⟩
  | refresh => exact .inl (of_isDerived_updateHandle Bool.false_ne_true.elim hk)
  | vanish => exact .inl (of_isDerived_updateHandle (f := (·.invalidated)) Bool.false_ne_true.elim hk)
  | mark => exact .inl (of_isDerived_updateHandle (fun hk => ⟨hk, rfl⟩) hk)
  | insert => exact .inl (of_isDerived_withFresh hk)
  | @create _ _ row b s _ _ _ hnew =>
    rw [handle_adopt] at hk ⊢
    split at hk
    · obtain ⟨_, -, rfl⟩ := Handle.eq_of_ofRow hnew
      cases hk
    · rename_i hold
      rw [if_neg hold]
      exact .inl (of_isDerived_withFresh hk)
  | @promote _ h row b =>
    exact .inl (of_isDerived_updateHandle (t := t) (h := h) (f := (·.promoted row _))
      Bool.false_ne_true.elim hk)
  | edit => exact .inl (of_isDerived_written hk)
  | takeOut _ h =>
    exact .inl (of_isDerived_updateHandle (t := t) (h := h) (f := (·.invalidated))
      Bool.false_ne_true.elim hk)
  | relocate hmay => exact absurd hmay hrelocate

/-- Derived symbols lie in memory after a stride that moves none, since this is checked when one is
pooled. One that was derived before lies where it lay. -/
theorem Stride.inMemory (hstride : t.Stride may t') (hrelocate : ¬ may .relocate) (hm : t.InMemory) :
    t'.InMemory := by
  intro k hk
  rcases hstride.step.of_isDerived hrelocate hk with ⟨hbefore, heq⟩ | hnew
  · rw [heq]
    exact hm k hbefore
  · exact (hstride.derivable k hnew hk).memory

/-- A derived symbol is moved within memory. The others stay where they are, so all derived symbols
lie in memory still. -/
theorem InMemory.transferred (hm : t.InMemory) {a : Address} (hlive : (t.handle h).deleted = false)
    (ha : a.isMemory = true) : (t.transferred h a).InMemory := by
  have hhandle : ∀ k, (t.transferred h a).handle k =
      if k = h then (t.handle h).relocated a else t.handle k :=
    handle_updateHandle t (lt_of_live hlive) (·.relocated a)
  intro k hk
  rw [hhandle] at hk ⊢
  split at hk
  · rw [if_pos ‹_›]
    exact ha
  · rw [if_neg ‹_›]
    exact hm k hk

end Table

/-- The course on which rows lie where they may by the usual rules. -/
def Course.usuallyPlaced : Course :=
  .everywhere Table.UsuallyPlaced Table.checked_usuallyPlaced

/-- The course on which derived symbols lie in memory. -/
def Course.inMemory : Course :=
  .maintaining Table.InMemory fun _ _ _ htended => htended.stride.inMemory not_false

namespace Course

/-- A stride that moves no derived symbol is on the course. -/
theorem inMemory_of_stride (hstride : t.Stride may t') (hrelocate : ¬ may .relocate) :
    inMemory.rel t t' :=
  maintaining_of_path (.single hstride.step) fun _ => hstride.inMemory hrelocate

/-- Derived symbols stay where they are when something changes around the handles. Their places are
read off the handles. -/
theorem inMemory_of_handles (hpath : Path may t t') (hhandles : t'.handles = t.handles) :
    inMemory.rel t t' := by
  refine maintaining_of_path hpath fun _ hm k => ?_
  rw [Table.handle, hhandles]
  exact hm k

theorem inMemory_of_beside (hbeside : t.Beside t') : inMemory.rel t t' :=
  inMemory_of_handles (.single (.aside hbeside) : Path upkeep t t') hbeside.handles

theorem aloof_inMemory : inMemory.Aloof :=
  fun _ _ _ hbeside _ => inMemory_of_beside hbeside

theorem inMemory_designates : inMemory.Designates :=
  fun _ _ _ _ => inMemory_of_beside ⟨rfl, rfl, rfl, rfl, rfl, rfl⟩

theorem inMemory_allows_plan : inMemory.Allows .plan :=
  fun _ _ _ hdrifts => inMemory_of_handles (hdrifts.path rfl : Path (Eq .plan) _ _) hdrifts.handles

/-- Symbols may be stored, named and marked on this course, which moves no derived one. -/
theorem inMemory_writes : inMemory.Writes :=
  .of_strides aloof_inMemory.deaf (fun _ hstride => inMemory_of_stride hstride nofun)
    fun _ _ _ => inMemory_of_beside (Table.beside_claimPrimary _ _ _ _)

/-- Rows may be taken out on this course. A handle whose row is taken out is marked deleted, so it
does not become that of a derived symbol. -/
theorem inMemory_removes : inMemory.Removes where
  deaf := aloof_inMemory.deaf
  mark h deleting _ := by
    refine inMemory_of_stride (.of_length_eq (.mark rfl h deleting) rfl ?_) nofun
    exact Table.length_updateHandle ..
  removal _ _ _ hrel hkey hremoval := by
    obtain ⟨b, hremoves, hbeside⟩ := hremoval.exists_release
    have hreleased := Table.Stride.of_length_eq (.takeOut rfl _ hkey hremoves) rfl List.length_set
    exact hrel.trans ((inMemory_of_stride hreleased nofun).trans (inMemory_of_beside hbeside))

/-- Stored symbols may get another address on this course, wherever this is. They are not
derived. -/
theorem inMemory_allows_readdress : inMemory.Allows .readdress := by
  intro t t' h a _ _ hmoved
  obtain ⟨r, b, hrow, hputs, hbeside⟩ := hmoved.exists_written
  have hedits : t.Edits (Eq .readdress) (t.handle h) r { r with address := a } := .readdress rfl a
  have hwritten := Table.Stride.of_length_eq (.edit h hrow hedits hputs) rfl (Table.length_updateHandle ..)
  exact (inMemory_of_stride hwritten nofun).trans (inMemory_of_beside hbeside)

end Course

/-! ## Moves that suit -/

/-- What moves with a block comes to lie in its new space. An address that is not in the space that
moves stays the same, which `hne` excludes. -/
theorem Address.isMemory_relocated {a oldBase newBase : Address} (hnew : newBase.isMemory = true)
    (hne : a.relocated oldBase newBase ≠ a) : (a.relocated oldBase newBase).isMemory = true := by
  unfold relocated at hne ⊢
  split
  · exact hnew
  · rename_i hapart
    rw [hapart] at hne
    exact absurd rfl hne

namespace Table

/-- The symbol has the row, or will have it once its handle was refreshed. -/
def HasRow (t : Table) (h : HandleId) (r : Row) : Prop :=
  (t.handle h).row = some r ∨ (t.handle h).key = .stored r.id ∧ r ∈ t.rows

/-- The row that a handle has once it was refreshed is the one that the symbol has already. So a
condition on a move can be stated before the refresh. -/
theorem Refreshed.hasRow {r : Row} (hr : t.Refreshed h (.ok ()) t') (hs : t.Sound)
    (hrow : (t'.handle h).row = some r) : t.HasRow h r := by
  cases hr with
  | ready => exact .inl hrow
  | @reloaded x row hlive hx _ hget =>
    rw [handle_updateHandle_self t (lt_of_live hlive)] at hrow
    obtain rfl : row = r := Option.some.inj hrow
    have hid : row.id = x.id := id_of_row? hget
    exact .inr ⟨hid ▸ (hs.inOrder h).key x hx, mem_of_row? hget⟩

end Table

/-- A move through the table that takes no symbol with a block to where one of its kind cannot
lie. -/
structure Move.Suits (t : Table) (m : Move) : Prop where
  goesThrough : m.goesThrough
  stored : ∀ h oldBase newBase r, m = .edit h (.relocate oldBase newBase) → t.HasRow h r →
    r.address.relocated oldBase newBase ≠ r.address →
    t.Placed (t.handle h).kind { r with address := r.address.relocated oldBase newBase }
  derived : ∀ h oldBase newBase, m = .edit h (.relocate oldBase newBase) →
    (t.handle h).isDerived = true →
    (t.handle h).address.relocated oldBase newBase ≠ (t.handle h).address →
    ((t.handle h).address.relocated oldBase newBase).isMemory = true

namespace Move.Suits

/-- Every move through the table but a relocation suits, for the others check where a symbol may
lie. -/
theorem of_ne_relocate (hm : m.goesThrough) (hne : ∀ h old new, m ≠ .edit h (.relocate old new)) :
    m.Suits t :=
  ⟨hm, fun h old new _ heq => (hne h old new heq).elim, fun h old new heq => (hne h old new heq).elim⟩

/-- A block may be moved into memory, with every symbol that has a place. What lies nowhere is
excepted: it would come to lie in memory with the block, where a scope has no place. -/
theorem of_isMemory {oldBase newBase : Address}
    (hlocated : (t.rules.capabilities (t.handle h).kind).located = true) (hnew : newBase.isMemory = true) :
    (Move.edit h (.relocate oldBase newBase)).Suits t := by
  refine ⟨trivial, ?_, ?_⟩
  · rintro _ _ _ r ⟨⟩ - hne
    refine ⟨fun _ _ => Address.isMemory_relocated hnew hne, fun hunlocated => ?_⟩
    cases hlocated.symm.trans hunlocated
  · rintro _ _ _ ⟨⟩ - hne
    exact Address.isMemory_relocated hnew hne

/-- A move that suits leaves derived symbols in memory. All moves but relocations neither make nor
move a derived symbol except in memory, and for relocations this is the condition. -/
theorem ends_inMemory (hm : m.Suits t) (hn : Heeds .inMemory notify) (ht : t.Sound) :
    Ends t (m.action notify) fun _ t' => Course.inMemory.rel t t' := by
  by_cases hrelocates : ∃ h old new, m = .edit h (.relocate old new)
  · obtain ⟨h, old, new, rfl⟩ := hrelocates
    refine Ends.rel_map (Ends.rel_map (ends_relocate ht h old new (fun t₁ t₂ hr _ hmoved => ?_)
      fun a hderived ha hne => ?_))
    · have ht₁ := hr.path.sound ht
      exact (hr.rel ht).trans (Course.inMemory_allows_readdress t₁ t₂ h _ ht₁ hr.isReady hmoved)
    · subst ha
      obtain ⟨hrow, hlive⟩ := Handle.isDerived_iff.1 hderived
      have hmemory := hm.derived h old new rfl hderived hne
      exact Course.maintaining_of_path (Table.path_transferred trivial hlive hrow : Path (fun _ => True) _ _)
        fun _ hin => hin.transferred hlive hmemory
  · have hpermitted : m.Permitted Course.inMemory.Allows t :=
      .of_goesThrough hm.goesThrough Course.inMemory_writes (fun _ _ => Course.inMemory_removes)
        (fun _ _ _ _ => Course.inMemory_allows_readdress)
        fun h old new heq _ => absurd ⟨h, old, new, heq⟩ hrelocates
    exact Move.ends_rel hn Course.inMemory_designates ht hpermitted

/-- A move that suits leaves rows where they may lie by the usual rules. The condition is stated of
the row that the handle has or will have, so it is known where the row is written. -/
theorem ends_usuallyPlaced (hm : m.Suits t) (hn : Heeds .usuallyPlaced notify) (ht : t.Sound) :
    Ends t (m.action notify) fun _ t' => Course.usuallyPlaced.rel t t' := by
  by_cases hmoves : ∃ h e, m = .edit h e ∧ e.deed? = some .readdress
  · obtain ⟨h, e, rfl, he⟩ := hmoves
    cases e with
    | setAddress a =>
      refine Ends.rel_map (Ends.rel_map (ends_setAddress hn ht h a fun t₁ r b hr hrow hk hputs => ?_))
      have hmoved : t₁.Readdressed h a (t₁.written h { r with address := a } b) := .alone hrow hk hputs
      refine (hr.rel ht).trans (Course.everywhere_of_readdressed hmoved fun _ _ _ _ => ?_)
      exact Table.usuallyPlaced_of_movable hk
    | relocate old new =>
      refine Ends.rel_map (Ends.rel_map (ends_relocate ht h old new (fun t₁ t₂ hr hne hmoved => ?_)
        fun a hderived _ _ => ?_))
      · refine (hr.rel ht).trans (Course.everywhere_of_readdressed hmoved fun r hs₁ hrow _ hrules => ?_)
        have haddress : (t₁.handle h).address = r.address := (hs₁.inOrder h).address r hrow
        rw [haddress] at hne ⊢
        rw [hr.kind_eq]
        exact (hm.stored h old new r rfl (hr.hasRow ht hrow) hne).congr hr.path.sameFrame
      · obtain ⟨hrow, hlive⟩ := Handle.isDerived_iff.1 hderived
        exact Course.everywhere_allows_relocate t h a ht ⟨hlive, .inl hrow⟩ hrow
    | _ => cases he
  · have hpermitted : m.Permitted Course.usuallyPlaced.Allows t :=
      .of_goesThrough hm.goesThrough Course.everywhere_writes (fun _ _ => Course.everywhere_removes)
        (fun h e heq he => absurd ⟨h, e, heq, he⟩ hmoves) fun _ _ _ _ _ => Course.everywhere_allows_relocate
    exact Move.ends_rel hn Course.everywhere_designates ht hpermitted

end Move.Suits

/-! ## Runs -/

variable {s : Situated σ}

/-- **Symbols lie where their kind can.** Whatever was done through a table with the usual rules
since it was opened empty, by moves and by their listeners, and whichever calls of the store failed:
a row of a kind that lies nowhere lies nowhere, one without a name that is called after its place
lies in memory, and so does every symbol that is there and is derived. No symbol was taken along
with a block to where one of its kind cannot lie. -/
theorem Runs.symbols_lie_where_they_can {s₀ : Situated σ} (hnew : s₀.table.IsNew .standard)
    (hrun : Runs (fun _ t m => m.Suits t) false s₀ s) :
    (∀ r ∈ s.table.rows, ∃ k, r.kind? = some k ∧
      ((Capabilities.standard k).located = false → r.address = .nowhere) ∧
      (r.provenance = .default → (Capabilities.standard k).stem?.isSome = true →
        r.address.isMemory = true)) ∧
    ∀ h a, ((isValid h).run s).1 = .ok true → (s.table.handle h).key = .derived a → a.isMemory = true := by
  have hframe := hrun.sameFrame hnew.sound
  have hrules : s.table.rules = .standard := hframe.rules.trans hnew.rules_eq
  constructor
  · have heverywhere := hrun.everywhere Table.checked_usuallyPlaced hnew
      fun _ _ _ _ hm hn ht => hm.ends_usuallyPlaced hn ht
    intro r hr
    obtain ⟨k, hk, hplaced⟩ := heverywhere.rows r hr
    obtain ⟨hmemory, hnowhere⟩ := hplaced hrules
    rw [hrules] at hmemory hnowhere
    exact ⟨k, hk, hnowhere, hmemory⟩
  · have hrel : Course.inMemory.rel s₀.table s.table :=
      hrun.rel Course.inMemory_allows_plan (fun _ _ _ _ hm => hm.ends_inMemory) hnew.sound
    have hfirst : s₀.table.InMemory := by
      intro k hk
      rw [hnew.handle_eq] at hk
      cases hk
    intro h a hvalid hkey
    have hs := hrel.sound hnew.sound
    obtain ⟨hderived, rfl⟩ := (hs.inOrder h).derived_of_key hkey (ends_isValid hs h s rfl hvalid)
    exact hrel.maintains hnew.sound hfirst h hderived

/-- A function without a name and a derived symbol move within memory, and a variable goes to a
register. They are where they can be at the end, and the scope lies nowhere, though its draft had an
address. -/
theorem Runs.symbols_lie_where_they_can_of_moved :
    let s₀ : Situated Unit := ⟨.empty default .standard, (), 0⟩
    let new (kind : Kind) (name : String) (p : Provenance) : Move :=
      .create ⟨name, kind, .ram 16, .global, p, 0, 0, none⟩
    let go (s : Situated Unit) (m : Move) := ((m.action Listener.idle).run s).2
    let s := [new .namespaceScope "n" .userDefined, new .function "" .default,
      new .globalVariable "x" .userDefined, .search (.derivedAt (.ram 32)),
      .edit 2 (.setAddress (.ofOffset .register 4)), .edit 1 (.relocate (.ram 16) (.ram 48)),
      .edit 3 (.relocate (.ram 16) (.ram 48))].foldl go s₀
    s₀.table.IsNew .standard ∧ Runs (fun _ t m => m.Suits t) false s₀ s ∧
      (∀ r ∈ s.table.rows, ∃ k, r.kind? = some k ∧
        ((Capabilities.standard k).located = false → r.address = .nowhere) ∧
        (r.provenance = .default → (Capabilities.standard k).stem?.isSome = true →
          r.address.isMemory = true)) ∧
      ∀ h a, ((isValid h).run s).1 = .ok true → (s.table.handle h).key = .derived a →
        a.isMemory = true := by
  intro s₀ new go s
  have hnew : s₀.table.IsNew .standard := .memory _ _ _
  have hrun : Runs (fun _ t m => m.Suits t) false s₀ s :=
    .move (.move (.move (.move (.move (.move (.move .refl
      (.of_ne_relocate trivial nofun) .idle) (.of_ne_relocate trivial nofun) .idle)
      (.of_ne_relocate trivial nofun) .idle) (.of_ne_relocate trivial nofun) .idle)
      (.of_ne_relocate trivial nofun) .idle) (.of_isMemory (by decide) (by decide)) .idle)
      (.of_isMemory (by decide) (by decide)) .idle
  exact ⟨hnew, hrun, Runs.symbols_lie_where_they_can hnew hrun⟩

/-- Blocks take a scope into memory, a function without a name to the stack and a derived symbol to
a register. -/
theorem Runs.symbols_are_misplaced :
    let s₀ : Situated Unit := ⟨.empty default .standard, (), 0⟩
    let new (kind : Kind) (name : String) (p : Provenance) : Move :=
      .create ⟨name, kind, .ram 16, .global, p, 0, 0, none⟩
    let go (s : Situated Unit) (m : Move) := ((m.action Listener.idle).run s).2
    let s := [new .namespaceScope "n" .userDefined, new .function "" .default,
      .search (.derivedAt (.ram 32)), .edit 0 (.relocate .nowhere (.ram 16)),
      .edit 1 (.relocate (.ram 16) (.ofOffset .stack 0)),
      .edit 2 (.relocate (.ram 32) (.ofOffset .register 0))].foldl go s₀
    s₀.table.IsNew .standard ∧ Runs (fun _ _ m => m.goesThrough) false s₀ s ∧
      (∃ r ∈ s.table.rows, r.kind? = some .namespaceScope ∧ r.address ≠ .nowhere) ∧
      (∃ r ∈ s.table.rows, r.kind? = some .function ∧ r.provenance = .default ∧
        r.address.isMemory = false) ∧
      ((isValid 2).run s).1 = .ok true ∧
      ∃ a, (s.table.handle 2).key = .derived a ∧ a.isMemory = false := by
  intro s₀ new go s
  have hrun : Runs (fun _ _ m => m.goesThrough) false s₀ s :=
    .move (.move (.move (.move (.move (.move .refl trivial .idle) trivial .idle) trivial .idle)
      trivial .idle) trivial .idle) trivial .idle
  exact ⟨.memory _ _ _, hrun, by decide, by decide, by decide, ⟨.ofOffset .register 0, by decide, by decide⟩⟩

end SymbolTable
