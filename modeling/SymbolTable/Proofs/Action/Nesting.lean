import SymbolTable.Proofs.Action.Keeping
import SymbolTable.Proofs.Table.Depth
import SymbolTable.Proofs.ScopeForest

/-!
# What moves do to the ways between scopes

Creations, renames and moves between scopes put at most one row into the scope that was asked for
(`Move.seat?`, `Move.ends_seats`). All other moves through the table leave every row in its scope,
take it out, or store a derived symbol in the global scope (`Course.staying`, `Move.ends_staying`).
-/

namespace SymbolTable

open SymbolTable.Action
open Table (Path upkeep)

variable {σ α β : Type} {t t' : Table} {notify : Listener σ} {h : HandleId} {scope : Scope}
  {id? : Option SymbolId}

/-! ## Symbols that stay -/

/-- Rows stay in their scopes, as long as derived symbols are not relocated and rows are changed
through the table alone. -/
def Course.staying : Course :=
  .assuring (fun _ => True) Table.Stays (fun _ => .of_rows_eq rfl) (fun _ _ _ h h' => h.trans h')
    fun _ _ _ _ htended _ => ⟨trivial, .of_rows_eq (congrArg (·.backend.rows) htended.stride.step.upkeep.1)⟩

namespace Course

/-- Steps that neither move derived symbols nor go behind the table's back are on the course if rows
stay in their scopes. -/
theorem staying_of_path {may : Deed → Prop} (hpath : Path may t t') (hrelocate : ¬ may .relocate)
    (hintrude : ¬ may .intrude) (hstays : t.Sound → t.Exact → t.Stays t') : staying.rel t t' :=
  assuring_of_path hpath hrelocate hintrude fun hs _ he _ => ⟨trivial, hstays hs he⟩

/-- If the rows are the same at the end, they lie in the same scopes. -/
theorem staying_of_rows_eq {may : Deed → Prop} (hpath : Path may t t') (hrelocate : ¬ may .relocate)
    (hintrude : ¬ may .intrude) (hrows : t'.rows = t.rows) : staying.rel t t' :=
  staying_of_path hpath hrelocate hintrude fun _ _ => .of_rows_eq hrows

theorem staying_plan : staying.Allows .plan := by
  intro t t' _ hdrifts
  have hpath : Path (· = .plan) t t' := hdrifts.path rfl
  exact staying_of_rows_eq hpath nofun nofun hpath.rows_eq

theorem staying_designates : staying.Designates := by
  intro t h r _ _ _ _
  have hpath : Path upkeep t { t with facts := t.facts.setPrimary (t.handle h).address (some r.id) } :=
    .single (.aside ⟨rfl, rfl, rfl, rfl, rfl, rfl⟩)
  exact staying_of_rows_eq hpath not_false not_false rfl

/-- Rows may be written on this course if each stays in its scope. A derived symbol that is stored
comes to lie in the global one, where it is shown already. -/
theorem staying_writesInto : staying.WritesInto fun _ => False := by
  intro t t' hs hw
  refine staying_of_path hw.claimed.path nofun nofun fun _ he => ?_
  cases hw with
  | draw => exact .of_rows_eq hs.rows_draw
  | @edit h r r' b hrow hedits hinto hputs =>
    have hget := (he.mirrors h).row r hrow
    have hreplaces : t.Replaces r' (t.written h r' b) := Table.row?_puts hs.backend hputs
    refine .of_replaces hreplaces (.inr ⟨r, ?_, hinto.resolve_right id⟩)
    rw [hedits.id_eq, hget]
  | @promote h row b _ _ _ _ hstores _ hinto =>
    have hreplaces : t.Replaces row (t.withBackend b) := hstores.row? hs
    refine .of_replaces (hreplaces.congr rfl ?_) (.inl (hinto.resolve_right id))
    exact (Table.beside_claimPrimary ..).rows_eq

/-- Symbols may get another address on this course, which is not another scope. The row is replaced
by one with the same parent, and a designation that goes along is no matter of scopes. -/
theorem staying_readdress : staying.Allows .readdress := by
  intro t t' h a hs hready hmoved
  refine staying_of_path hmoved.path nofun nofun fun _ he => ?_
  obtain ⟨r, b, hrow, hputs, hbeside⟩ := hmoved.exists_written
  have hreplaces : t.Replaces { r with address := a } (t.written h { r with address := a } b) :=
    Table.row?_puts hs.backend hputs
  exact .of_replaces (hreplaces.congr rfl hbeside.rows_eq) (.inr ⟨r, (he.mirrors h).row r hrow, rfl⟩)

/-- Rows may be taken out on this course: those that are left stay where they are. Nothing is told
here that would matter to the course, so the stretch between the marks of a deletion needs no course
of its own. -/
theorem staying_remove : staying.Allows .remove where
  deaf := (Aloof.of_allows_plan staying_plan).deaf
  mark {t} h deleting _ := by
    have hpath : Path (Eq .remove) t (t.updateHandle h fun s => { s with deleting := deleting }) :=
      .single (.mark rfl h deleting)
    exact staying_of_rows_eq hpath nofun nofun rfl
  removal hs _ _ hrel hkey hremoval := by
    have hpath := hremoval.path hkey
    have hs₁ := hrel.sound hs
    refine hrel.trans (staying_of_path hpath nofun nofun fun _ _ => .of_row? fun id r' hget => ?_)
    have hmem := (hpath.mono fun _ hd => .inl hd.symm : Path Table.pruning _ _).rows_subset (Table.mem_of_row? hget)
    rw [← Table.id_of_row? hget]
    exact Table.row?_id hs₁.backend hmem

end Course

/-! ## Symbols that are put into a scope -/

namespace Action

/-- A creation puts a fresh row into the scope of the draft. The checks come first and only read.
The listener that is told is quiet, so nobody else moves anything. -/
theorem ends_create_seats (hq : Quiet notify) (ht : t.Sound) (draft : Draft) :
    Ends t (create notify draft) fun _ t' => t.Seats none draft.scope t' := by
  refine .look_bind ?_
  have hscope : (draft.settled t.rules).scope = draft.scope := rfl
  rw [← hscope]
  generalize draft.settled t.rules = d
  refine (tells_checkDraft ht d).ends_bind (fun _ _ => ?_) fun _ => .refl ..
  refine .drawRow ht.backend (fun id b hid hputs => ?_) (fun _ => .refl ..) fun _ => .inl ht.rows_draw
  have hseats : t.Seats none (d.row id).parent (t.withBackend b) := .of_fresh ht hid hputs
  refine .change_bind (.change_bind ?_)
  have hrows : (((t.withBackend b).dropDerived d.address).claimPrimary d.address id d.kind).rows = b.rows :=
    (Table.beside_claimPrimary ..).rows_eq.trans (congrArg (·.backend.rows) (Table.store_dropDerived ..))
  generalize ((t.withBackend b).dropDerived d.address).claimPrimary d.address id d.kind = t₁ at hrows
  refine (reads_displayName _).ends_bind (fun shown => .look_bind (.seq (.conclude ?_))) fun _ =>
    hseats.of_rows_eq hrows
  cases Handle.ofRow (d.row id) t₁.store.modificationCount with
  | error fault => exact hseats.of_rows_eq hrows
  | ok s =>
    refine .ok (.look_bind (.change_bind ?_))
    have htell : Drifting (do emit notify (.stored id) d.address .added; return t₁.handles.length) :=
      .bind (.emit hq _ _ _) fun _ => .of_reads (.pure _)
    exact (htell _).imp fun _ _ hdrifts =>
      hseats.of_rows_eq ((congrArg Store.Backend.rows hdrifts.backend).trans hrows)

/-- That a symbol was stored is noted and told, and nothing else is done. All of it is beside rows
and handles, with a listener that is quiet. -/
theorem drifting_tellPromotion (hq : Quiet notify) (h : HandleId) (id : SymbolId) (a : Address) (plan : Rename) :
    Drifting (do
      let name ← nameOf h
      change fun t => { t with journal := t.journal.record ⟨a, .stored id, .added, name⟩ }
      emit notify (.stored id) a .added
      if !plan.scope.isGlobal then
        emit notify (.stored id) a (.scopeChanged .global plan.scope)
      if name ≠ plan.oldName then
        emit notify (.stored id) a (.renamed plan.oldName name)) := by
  refine .bind (.of_reads (reads_nameOf h)) fun name => ?_
  refine .bind (.change fun _ => ⟨rfl, rfl, rfl, rfl, rfl, rfl⟩) fun _ => .bind (.emit hq _ _ _) fun _ => ?_
  have hname : Drifting (if name ≠ plan.oldName then
      emit notify (.stored id) a (.renamed plan.oldName name) else pure ()) := by
    split
    · exact .emit hq _ _ _
    · exact .of_reads (.pure _)
  dsimp only
  split
  · exact .bind (.emit hq _ _ _) fun _ => hname
  · exact hname

/-- A derived symbol that is stored gets a fresh row in the scope of the plan. It had no row, so it
was seen in the global scope, and nothing lies in it. -/
theorem ends_promote_seats (hq : Quiet notify) (ht : t.Sound) (h : HandleId) (plan : Rename) :
    Ends t (promote notify h plan) fun _ t' => t.Seats id? plan.scope t' := by
  refine .look_bind (.drawRow ht.backend (fun id b hid hputs => ?_) (fun _ => .refl ..) fun _ =>
    .inl ht.rows_draw)
  generalize hfresh : Row.fresh id (t.handle h).kind (t.handle h).address plan.name plan.scope plan.provenance = row
    at hputs ⊢
  obtain ⟨rfl, hparent⟩ : row.id = id ∧ row.parent = plan.scope := by
    subst hfresh
    exact ⟨rfl, rfl⟩
  have hseats : t.Seats id? plan.scope (t.withBackend b) := hparent ▸ .of_fresh ht hid hputs
  refine .change_bind (.change_bind ?_)
  have hrows : (((t.withBackend b).embody h row).claimPrimary (t.handle h).address row.id (t.handle h).kind).rows =
      b.rows := (Table.beside_claimPrimary ..).rows_eq
  refine Ends.imp (drifting_tellPromotion hq h row.id (t.handle h).address plan _) fun _ _ hdrifts => ?_
  exact hseats.of_rows_eq ((congrArg Store.Backend.rows hdrifts.backend).trans hrows)

/-- A rename of a stored symbol puts its row into the scope of the plan. The other columns make no
difference to the ways up. If the scope is the one that it had, the way is as it was. -/
theorem ends_carryOut_seats (hq : Quiet notify) (ht : t.Sound) (hready : t.IsReady h) (plan : Rename) :
    Ends t (carryOut notify h plan) fun _ t' => t.Seats (t.handle h).id? plan.scope t' := by
  have hrows {t₁ : Table} (hpath : Path upkeep t t₁) : t.Seats (t.handle h).id? plan.scope t₁ :=
    .after hpath (.refl ..)
  refine .look_bind (.bind (follows_borrowers (c := .steps upkeep) h t ht) ?_ fun _ _ hpath => hrows hpath)
  intro bs t₁ hpath₁
  have hnames : Follows (.steps upkeep) (bs.mapM currentName : Action σ _) := .mapM follows_name bs
  refine .bind (hnames t₁ (hpath₁.sound ht)) ?_ fun _ _ hpath₂ => hrows (hpath₁.trans hpath₂)
  intro names t₂ hpath₂
  have hpath : Path upkeep t t₂ := hpath₁.trans hpath₂
  have ht₂ := hpath.sound ht
  refine .seq (ends_write ht₂ h (fun r b hrow hputs => .ok ?_) fun _ => hrows hpath)
  have hid : (t.handle h).id? = some r.id := by
    rw [← hready.handle_eq hpath]
    exact Handle.id?_eq_some_iff.2 ((ht₂.inOrder h).key r hrow)
  have hseats : t₂.Seats (t.handle h).id? plan.scope (t₂.written h (plan.apply r) b) :=
    .inr ⟨plan.apply r, Table.row?_puts ht₂.backend hputs, rfl, .inl hid⟩
  have hsound : (t₂.written h (plan.apply r) b).Sound := ht₂.written hrow rfl rfl hputs
  refine (keepsRows_tellRename hq h plan (t.handle h) (bs.zip names) _ hsound).imp fun _ _ hsame => ?_
  exact .after hpath (hseats.of_rows_eq hsame)

/-- A rename puts the symbol into the scope that was asked for, or changes no scope. If nothing is
planned, the symbol lies in the scope already. For a derived symbol the id is none, as the row will
be a fresh one. -/
theorem ends_rename_seats (hq : Quiet notify) (ht : t.Sound) (h : HandleId) (name : String) (scope : Scope)
    (p : Provenance) :
    Ends t (rename notify h name scope p) fun _ t' => t.Seats (t.handle h).id? scope t' := by
  refine .current ht h (fun _ => .refl ..) (fun _ _ hr => .after hr.path (.refl ..)) fun t₁ hr => ?_
  have ht₁ := hr.path.sound ht
  rw [Handle.id?, ← hr.key_eq]
  refine Ends.imp (R := fun _ t' => t₁.Seats (t₁.handle h).id? scope t') ?_ fun _ _ hseats => .after hr.path hseats
  refine (tells_planRename_scope ht₁ h name scope p).ends_bind (fun plan? hscope => ?_) fun _ => .refl ..
  split
  · exact .pure (.refl ..)
  · rename_i plan
    obtain rfl : plan.scope = scope := hscope
    refine .look_bind ?_
    split
    · exact ends_promote_seats hq ht₁ h plan
    · exact ends_carryOut_seats hq ht₁ hr.isReady plan

/-- To set a scope puts the symbol into it, or changes no scope. It is a rename with the name that
the symbol shows. -/
theorem ends_setScope_seats (hq : Quiet notify) (ht : t.Sound) (h : HandleId) (scope : Scope) :
    Ends t (setScope notify h scope) fun _ t' => t.Seats (t.handle h).id? scope t' := by
  refine .current ht h (fun _ => .refl ..) (fun _ _ hr => .after hr.path (.refl ..)) fun t₁ hr => ?_
  rw [Handle.id?, ← hr.key_eq]
  refine (reads_nameOf h).ends_bind (fun name => .look_bind ?_) fun _ => .after hr.path (.refl ..)
  exact (ends_rename_seats hq (hr.path.sound ht) h name scope _).imp fun _ _ hseats => .after hr.path hseats

end Action

/-! ## Moves -/

/-- The scope into which a move puts a symbol, and the id of this symbol if it is stored. -/
def Move.seat? (t : Table) : Move → Option (Option SymbolId × Scope)
  | .create draft => some (none, draft.scope)
  | .edit h (.rename _ scope _) | .edit h (.setScope scope) => some ((t.handle h).id?, scope)
  | _ => none

/-- It does not matter what is made of the answer. -/
theorem Ends.seats_map {a : Action σ α} {f : α → β} (ha : Ends t a fun _ t' => t.Seats id? scope t') :
    Ends t (f <$> a) fun _ t' => t.Seats id? scope t' :=
  .map ha (fun _ _ hseats => hseats) fun _ _ hseats => hseats

/-- Each of the moves that ask for a scope puts at most the one symbol into it, with a listener that
is quiet. These are creations, renames and moves between scopes, and each of them has its lemma. -/
theorem Move.ends_seats (hq : Quiet notify) (ht : t.Sound) {m : Move} (hm : m.seat? t = some (id?, scope)) :
    Ends t (m.action notify) fun _ t' => t.Seats id? scope t' := by
  cases m with
  | create draft =>
    cases hm
    exact Ends.seats_map (ends_create_seats hq ht draft)
  | edit h e =>
    cases e with
    | rename name scope p =>
      cases hm
      exact Ends.seats_map (Ends.seats_map (ends_rename_seats hq ht h name scope p))
    | setScope scope =>
      cases hm
      exact Ends.seats_map (Ends.seats_map (ends_setScope_seats hq ht h scope))
    | _ => cases hm
  | _ => cases hm

/-- Whatever is done besides, all symbols stay in their scopes. The proof goes along the course for
most of them, and cites the deletions and the renames that stay in their scope. -/
theorem Move.ends_staying (hq : Quiet notify) (ht : t.Sound) {m : Move} (hm : m.keepsForest false t)
    (hseat : m.seat? t = none) : Ends t (m.action notify) fun _ t' => Course.staying.rel t t' := by
  have hn : Heeds .staying notify := hq.heeds Course.staying_plan
  have hnote := (Course.Aloof.of_allows_plan Course.staying_plan).deaf.notes
  cases m with
  | create => cases hseat
  | put | take => exact hm.elim
  | query | search => exact Move.ends_rel hn Course.staying_designates ht trivial
  | edit h e =>
    have hinPlace (he : e.InPlace) : Ends t (Move.action notify (.edit h e)) fun _ t' => Course.staying.rel t t' :=
      Follows.map (follows_perform_inPlace hn Course.staying_designates hnote Course.staying_writesInto h he) t ht
    cases e with
    | rename | setScope => cases hseat
    | setAddress a =>
      refine Move.ends_rel hn Course.staying_designates ht ⟨?_, nofun⟩
      rintro _ ⟨⟩
      exact Course.staying_readdress
    | relocate oldBase newBase =>
      refine Move.ends_rel hn Course.staying_designates ht ⟨?_, fun _ _ _ hderived => ?_⟩
      · rintro _ ⟨⟩
        exact Course.staying_readdress
      · cases hm.2.symm.trans hderived
    | delete =>
      refine Move.ends_rel hn Course.staying_designates ht ⟨?_, nofun⟩
      rintro _ ⟨⟩
      exact Course.staying_remove
    | setProvenance | setPinned | setName | setData1 | setData2 | setData3 | setPrimary => exact hinPlace trivial

end SymbolTable
