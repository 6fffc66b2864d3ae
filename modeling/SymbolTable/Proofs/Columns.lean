import SymbolTable.Proofs.Action.Deletion
import SymbolTable.Proofs.Action.Refusal

/-!
# What a write replaces

An edit writes the whole row of its symbol, a copy with a few columns replaced. The copy was made
current before, so it is the row that was stored, even where that was changed behind the table's
back, and every other column stays as it was (`Edit.Rewrites`), as do the reserved bits of the flags
and all other rows (`Table.Replaces`).
-/

namespace SymbolTable

open SymbolTable.Action
open Table (Path Step upkeep)

variable {σ α β : Type} {t t' : Table} {notify : Listener σ} {h : HandleId} {id : SymbolId}

/-- The edit turns one row into the other, in which only its own columns are replaced: the
provenance, the pinned mark, the address, one of the data, or the scope, the name and the
provenance. -/
def Edit.Rewrites (r r' : Row) : Edit → Prop
  | .setProvenance p => r' = r.withProvenance p
  | .setPinned pinned => r' = r.withPinned pinned
  | .rename _ scope _ | .setScope scope =>
    ∃ name p, r' = { r with parent := scope, name := name }.withProvenance p
  | .setName _ _ => ∃ name p, r' = { r with name := name }.withProvenance p
  | .setAddress a => r' = { r with address := a }
  | .relocate oldBase newBase => r' = { r with address := r.address.relocated oldBase newBase }
  | .setData1 value => r' = { r with data1 := value }
  | .setData2 value => r' = { r with data2 := value }
  | .setData3 value => r' = { r with data3 := value }
  | .setPrimary => r' = r
  | .delete => False

/-- No edit changes the id or the tag of a row, or the reserved bits of its flags. These are the
columns by which a row is told from others, and the bits that nobody reads, so no edit makes one
symbol out of another. -/
theorem Edit.Rewrites.keeps {e : Edit} {r r' : Row} (h : e.Rewrites r r') :
    r'.id = r.id ∧ r'.tag = r.tag ∧ r'.flags &&& Row.reservedBits = r.flags &&& Row.reservedBits := by
  cases e with
  | setProvenance p =>
    obtain rfl := h
    exact ⟨rfl, rfl, Row.reserved_withProvenance r p⟩
  | setPinned pinned =>
    obtain rfl := h
    exact ⟨rfl, rfl, Row.reserved_withPinned r pinned⟩
  | rename | setName | setScope =>
    obtain ⟨name, p, rfl⟩ := h
    exact ⟨rfl, rfl, Row.reserved_withProvenance _ p⟩
  | setAddress | relocate | setData1 | setData2 | setData3 | setPrimary =>
    obtain rfl := h
    exact ⟨rfl, rfl, rfl⟩
  | delete => exact h.elim

/-! ## Replacing a row -/

namespace Table

/-- The row is under its id, and every other row is as it was. -/
def Replaces (t : Table) (r : Row) (t' : Table) : Prop :=
  ∀ id, t'.row? id = if id = r.id then some r else t.row? id

namespace Replaces

variable {r : Row}

/-- A row that is stored takes its own place without a change. So a call that writes nothing may
count as one that rewrites a row by itself. -/
theorem refl (hget : t.row? r.id = some r) : t.Replaces r t := by
  intro id
  split
  · rename_i hid
    rw [hid, hget]
  · rfl

/-- Whether a row is replaced depends on the rows at the beginning and at the end alone. -/
theorem congr {t₁ t₁' : Table} (h : t₁.Replaces r t₁') (hrows : t₁.rows = t.rows)
    (hrows' : t'.rows = t₁'.rows) : t.Replaces r t' := by
  intro id
  rw [row?_congr hrows', h id, row?_congr hrows]

end Replaces

/-- Where outages are planned at most, the rows stay as they are. Such a path is what a quiet
listener may take, so it may be told in the middle of an edit. -/
theorem Path.rows_eq (hpath : Path (· = .plan) t t') : t'.rows = t.rows := by
  induction hpath with
  | refl => rfl
  | tail _ hstep ih =>
    refine Eq.trans ?_ ih
    cases hstep with
    | aside hbeside => exact hbeside.rows_eq
    | plan | adopt | refresh | vanish => rfl
    | edit h hrow hedits =>
      cases hedits with
      | mark hmay | rename hmay | readdress hmay => cases hmay
    | draw hmay | insert hmay | create hmay | promote hmay | mark hmay | takeOut hmay | relocate hmay
    | intrudePut hmay | intrudeTake hmay => cases hmay

end Table

namespace Action

/-- The action leaves the rows as they are. -/
def KeepsRows (a : Action σ α) : Prop :=
  ∀ t : Table, t.Sound → Ends t a fun _ t' => t'.rows = t.rows

/-- What touches neither rows nor handles leaves the rows as they are. -/
theorem KeepsRows.of_drifting {a : Action σ α} (ha : Drifting a) : KeepsRows a :=
  fun t _ => (ha t).imp fun _ _ hdrifts => congrArg Store.Backend.rows hdrifts.backend

/-- What leads along a change of outages at most leaves the rows as they are. -/
theorem KeepsRows.of_follows {a : Action σ α} (ha : Follows (.steps (· = .plan)) a) : KeepsRows a :=
  fun t ht => (ha t ht).imp fun _ _ hpath => Table.Path.rows_eq hpath

/-- To tell a quiet listener leaves the rows as they are. -/
theorem keepsRows_emitFor (hq : Quiet notify) (h : HandleId) (c : Change) :
    KeepsRows (emitFor notify h c) :=
  .of_drifting (.bind (.of_reads (.look _)) fun _ => .emit hq _ _ _)

/-- Unless it is refused, the edit rewrites the row under an id. -/
def Rewriting (t : Table) (id : SymbolId) (e : Edit) (answer : Except Fault α) (t' : Table) : Prop :=
  ∀ x, answer = .ok x → ∃ r r', t.row? id = some r ∧ e.Rewrites r r' ∧ t.Replaces r' t'

section
variable {e : Edit} {r : Row}

/-- Of an edit that is refused nothing is promised here. What it leaves is said where refusals are
looked at. -/
theorem Rewriting.of_error (fault : Fault) : Rewriting t id e (.error fault : Except Fault α) t' :=
  fun _ hok => nomatch hok

/-- It does not matter where the rows were looked up. The rows are all that is asked of the table
before the call. -/
theorem Rewriting.congr {t₁ : Table} {answer : Except Fault α} (h : Rewriting t₁ id e answer t')
    (hrows : t₁.rows = t.rows) : Rewriting t id e answer t' := by
  intro x hx
  obtain ⟨r, r', hget, hrewrites, hreplaces⟩ := h x hx
  exact ⟨r, r', (Table.row?_congr hrows id).symm.trans hget, hrewrites, hreplaces.congr hrows rfl⟩

/-- Where an edit would change nothing, nothing is written. -/
theorem Rewriting.same {answer : Except Fault α} (hget : t.row? id = some r) (hrewrites : e.Rewrites r r) :
    Rewriting t id e answer t := by
  obtain rfl := Table.id_of_row? hget
  exact fun _ _ => ⟨r, r, hget, hrewrites, .refl hget⟩

/-- A write puts the edited row in the place of the row of the handle. What comes after the write
may tell of it but not change rows. If the store refuses to write, nothing is claimed. -/
theorem ends_write_rewrites (ht : t.Sound) (hrow : (t.handle h).row = some r) (hget : t.row? id = some r)
    {edit : Row → Row} (hrewrites : e.Rewrites r (edit r)) {f : Unit → Action σ α}
    (hf : KeepsRows (f ())) : Ends t (write h edit >>= f) (Rewriting t id e) := by
  obtain ⟨hid, htag, -⟩ := hrewrites.keeps
  refine .seq (ends_write ht h (fun r' b hrow' hputs => .ok ?_) .of_error)
  obtain rfl : r = r' := Option.some.inj (hrow.symm.trans hrow')
  refine (hf _ (ht.written hrow hid htag hputs)).imp fun _ t' hrows _ _ => ?_
  have hreplaces : t.Replaces (edit r) (t.written h (edit r) b) := Table.row?_puts ht.backend hputs
  exact ⟨r, edit r, hget, hrewrites, hreplaces.congr rfl hrows⟩

/-- What an edit does to the row of a handle that was refreshed, it does to the row that is stored.
It has to be shown that the refreshed copy is that row, which reliable tables grant, even where the
row was changed behind their back since. -/
theorem ends_current_rewrites (ht : t.Reliable) (hkey : (t.handle h).key = .stored id) {a : Action σ α}
    (ha : ∀ t₁ r, t.Refreshed h (.ok ()) t₁ → t₁.Reliable → (t₁.handle h).row = some r →
      t₁.row? id = some r → Ends t₁ a (Rewriting t₁ id e)) :
    Ends t (current h a) (Rewriting t id e) := by
  refine .current ht.sound h .of_error (fun fault _ _ => .of_error fault) fun t₁ hr => ?_
  obtain ⟨r, hget, -, hrow, -⟩ := hr.row_eq ht.sound ht.writes_lt ht.coherent hkey
  have hrows : t₁.rows = t.rows := hr.path.rows_eq_of_upkeep
  have hget₁ : t₁.row? id = some r := (Table.row?_congr hrows id).trans hget
  exact (ha t₁ r hr (ht.of_upkeep hr.path) hrow hget₁).imp fun _ _ hrewrites => hrewrites.congr hrows

end

/-! ## Marks, data and addresses -/

section
variable (hq : Quiet notify) (ht : t.Reliable) (hkey : (t.handle h).key = .stored id)

include hq ht hkey

/-- To set the provenance replaces this column alone. The flags hold the pinned mark and the
reserved bits, too, and they stay. If the provenance is there already, the row is not written, which
is no change to it either. -/
theorem ends_setProvenance_rewrites (p : Provenance) :
    Ends t (setProvenance notify h p) (Rewriting t id (.setProvenance p)) := by
  refine ends_current_rewrites ht hkey fun t₁ r hr ht₁ hrow hget => .look_bind ?_
  have hold : (t₁.handle h).provenance = r.provenance := by
    rw [Handle.provenance, hrow]
    rfl
  dsimp only
  rw [hold]
  split
  · rename_i hsame
    subst hsame
    exact .pure (.same hget r.withProvenance_provenance.symm)
  · split
    · exact .fail (.of_error _)
    · refine (reads_nameOf h).ends_bind (fun name => ?_) .of_error
      refine .ask_bind (fun _ _ => ?_) fun _ _ => .of_error _
      refine ends_write_rewrites ht₁.sound hrow hget ?_ (keepsRows_emitFor hq h _)
      rfl

/-- To pin or to unpin a symbol replaces this bit of the flags alone. The provenance shares its byte
with this bit, and stays as it was. -/
theorem ends_setPinned_rewrites (pinned : Bool) :
    Ends t (setPinned notify h pinned) (Rewriting t id (.setPinned pinned)) := by
  refine ends_current_rewrites ht hkey fun t₁ r hr ht₁ hrow hget => .look_bind (.look_bind ?_)
  split
  · exact .fail (.of_error _)
  · rw [hrow]
    dsimp only
    split
    · rename_i hsame
      subst hsame
      exact .pure (.same hget r.withPinned_isPinned.symm)
    · refine ends_write_rewrites ht₁.sound hrow hget ?_ (keepsRows_emitFor hq h _)
      rfl

/-- To set one of the data replaces it alone, if the symbol carries it. What the edit does to a row
is a premise, so this is one lemma for all of them. -/
theorem ends_setData_rewrites {e : Edit} {has : Row → Bool} {edit : Row → Row}
    (hhas : ∀ r, has r = true → e.Rewrites r r) (hedit : ∀ r, e.Rewrites r (edit r)) :
    Ends t (setData notify h has edit) (Rewriting t id e) := by
  refine ends_current_rewrites ht hkey fun t₁ r hr ht₁ hrow hget => .look_bind ?_
  rw [hrow]
  dsimp only
  split
  · rename_i hsame
    exact .pure (.same hget (hhas r hsame))
  · exact ends_write_rewrites ht₁.sound hrow hget (hedit r) (keepsRows_emitFor hq h _)

/-- To set the address replaces this column alone. If the symbol lies there already, nothing is
written, and the row is the one it should be. -/
theorem ends_setAddress_rewrites (a : Address) :
    Ends t (setAddress notify h a) (Rewriting t id (.setAddress a)) := by
  refine ends_current_rewrites ht hkey fun t₁ r hr ht₁ hrow hget => .look_bind (.look_bind ?_)
  rw [(ht₁.sound.inOrder h).address r hrow]
  split
  · exact .fail (.of_error _)
  · split
    · rename_i hsame
      subst hsame
      exact .pure (.same hget rfl)
    · refine ends_write_rewrites ht₁.sound hrow hget ?_ (.of_drifting (.emit hq _ _ _))
      rfl

omit hq in
/-- A relocation replaces the address alone. The designation is no column of the row. The row goes
to where its own address comes to lie with the block. The journal is carried along, and is no column
either. -/
theorem ends_relocate_rewrites (oldBase newBase : Address) :
    Ends t (relocate h oldBase newBase : Action σ _) (Rewriting t id (.relocate oldBase newBase)) := by
  refine ends_current_rewrites ht hkey fun t₁ r hr ht₁ hrow hget => .look_bind ?_
  dsimp only
  rw [(ht₁.sound.inOrder h).address r hrow, Handle.isDerived_of_row hrow, if_neg Bool.false_ne_true]
  split
  · rename_i hsame
    refine .pure (.same hget ?_)
    show r = { r with address := r.address.relocated oldBase newBase }
    rw [hsame]
  · refine ends_write_rewrites ht₁.sound hrow hget ?_ (.of_drifting ?_)
    · rfl
    · have hnote (a b : Address) :
          Drifting (change fun t => { t with journal := t.journal.moveAddress a b } : Action σ Unit) :=
        .change fun _ => ⟨rfl, rfl, rfl, rfl, rfl, rfl⟩
      rw [Handle.id?_eq_some_iff.2 ((ht₁.sound.inOrder h).key r hrow)]
      exact .bind (.change fun t => Table.beside_movePrimary t _ _ _) fun _ => hnote _ _

/-- To make a symbol primary replaces no column. The row that is there is in its place before and
after, which is the case of `Rewriting` in which nothing is written. -/
theorem ends_setPrimary_rewrites : Ends t (setPrimary notify h) (Rewriting t id .setPrimary) := by
  refine ends_current_rewrites ht hkey fun t₁ r hr ht₁ hrow hget => ?_
  refine Ends.imp (R := fun _ t₂ => t₁.Drifts t₂) ?_ fun _ t₂ hdrifts _ _ => ?_
  · refine .look_bind ?_
    split
    · exact .pure (.refl t₁)
    · refine .look_bind (.look_bind ?_)
      split
      · exact .pure (.refl t₁)
      · refine .change_bind (.seq (.emit fun s hs => .ok (.pure ?_)))
        have hdesignated : t₁.Drifts s.table := hs ▸ ⟨rfl, rfl, rfl, rfl, rfl, rfl⟩
        exact hdesignated.trans (hq _ s)
  · obtain rfl := Table.id_of_row? hget
    have hrows : t₂.rows = t₁.rows := congrArg Store.Backend.rows hdrifts.backend
    exact ⟨r, r, hget, rfl, (Table.Replaces.refl hget).congr rfl hrows⟩

end

/-! ## Names and scopes -/

/-- What is planned is for the scope that was asked for. Where nothing is planned, the symbol lies
there. So a rename writes the scope that was asked for and no other, though the plan is made of the
row, which may have been changed by others. -/
theorem tells_planRename_scope (ht : t.Sound) (h : HandleId) (name : String) (scope : Scope)
    (wanted : Provenance) :
    Tells t (planRename h name scope wanted : Action σ _) fun plan? =>
      plan?.elim (t.handle h).parent Rename.scope = scope := by
  refine .look_bind ((reads_nameOf h).tells.bind fun shown _ => .ask_bind fun _ _ => ?_)
  refine .look_bind (.ask_bind fun _ _ => ?_)
  have hproposes (p : Provenance) :
      Tells t (proposeRename (t.handle h) shown name scope p : Action σ _) fun plan? =>
        plan?.elim (t.handle h).parent Rename.scope = scope := by
    unfold proposeRename
    split
    · refine .pure ?_
      split
      · rfl
      · rename_i hsame
        simp only [Rename.moves, Bool.or_eq_true, not_or] at hsame
        simpa using hsame.2
    · refine .ask_bind fun _ _ => ?_
      dsimp only
      split
      · exact (tells_checkDuplicate ht _ _ _ _ _).bind fun _ _ => .pure rfl
      · rename_i hsame
        simp only [Rename.moves, Bool.or_eq_true, not_or] at hsame
        exact .pure (by simpa using hsame.2)
  dsimp only
  split
  · exact (tells_checkMove ht h shown scope).bind fun _ _ => hproposes _
  · exact hproposes _

/-- That a symbol of a handle, as it was, has another scope or name is told, and nothing is written.
This is what a rename does after its write. The names are asked for meanwhile, which refreshes
handles, and none of it touches a row. -/
theorem keepsRows_tellRename (hq : Quiet notify) (h : HandleId) (plan : Rename) (s : Handle)
    (borrowers : List (HandleId × String)) :
    KeepsRows (do
      if plan.moves then
        emit notify s.key s.address (.scopeChanged plan.oldScope plan.scope)
      if plan.renames then
        announceName notify h s.key s.address plan.oldName borrowers) := by
  have hheeds : Heeds (.steps (· = .plan)) notify := hq.heeds (Course.allows_steps rfl)
  refine .of_follows ?_
  have hname : Follows (.steps (· = .plan)) (if plan.renames then
      announceName notify h s.key s.address plan.oldName borrowers else pure ()) := by
    split
    · exact follows_announceName hheeds Course.aloof_steps.deaf.notes h _ _ _ _
    · exact .pure _
  dsimp only
  split
  · exact .bind (follows_emit hheeds _ _ nofun) fun _ => hname
  · exact hname

/-- A planned rename of a stored symbol puts the row that was planned in the place of the one that
is there. The plan is applied to the row that the handle has, which is the one that is stored. What
is told afterwards leaves the rows alone. -/
theorem ends_carryOut_rewrites {e : Edit} {r : Row} {plan : Rename} (hq : Quiet notify) (ht : t.Reliable)
    (hready : t.IsReady h) (hrow : (t.handle h).row = some r) (hget : t.row? id = some r)
    (hrewrites : e.Rewrites r (plan.apply r)) :
    Ends t (carryOut notify h plan) (Rewriting t id e) := by
  refine .look_bind (.bind (follows_borrowers (c := .steps upkeep) h t ht.sound) ?_ fun _ _ _ => .of_error _)
  intro bs t₁ hpath₁
  have hnames : Follows (.steps upkeep) (bs.mapM currentName : Action σ _) := .mapM follows_name bs
  refine .bind (hnames t₁ (hpath₁.sound ht.sound)) ?_ fun _ _ _ => .of_error _
  intro names t₂ hpath₂
  have hpath : Path upkeep t t₂ := hpath₁.trans hpath₂
  have hrows : t₂.rows = t.rows := hpath.rows_eq_of_upkeep
  have hrow₂ : (t₂.handle h).row = some r := by rw [hready.handle_eq hpath, hrow]
  have hget₂ : t₂.row? id = some r := (Table.row?_congr hrows id).trans hget
  refine (ends_write_rewrites (hpath.sound ht.sound) hrow₂ hget₂ hrewrites ?_).imp fun _ _ hrewrites =>
    hrewrites.congr hrows
  exact keepsRows_tellRename hq h plan (t.handle h) (bs.zip names)

section
variable (hq : Quiet notify) (ht : t.Reliable) (hkey : (t.handle h).key = .stored id)

include hq ht hkey

/-- A rename replaces the name, the scope and the provenance at most. To set a name and to set a
scope are renames, so the premise says that they replace no more than they may. -/
theorem ends_rename_rewrites (name : String) (scope : Scope) (p : Provenance) {e : Edit}
    (he : ∀ r r' : Row, t.row? id = some r → (Edit.rename name scope p).Rewrites r r' → e.Rewrites r r') :
    Ends t (rename notify h name scope p) (Rewriting t id e) := by
  refine ends_current_rewrites ht hkey fun t₁ r hr ht₁ hrow hget => ?_
  have hrows : t₁.rows = t.rows := hr.path.rows_eq_of_upkeep
  have hrewrites {r' : Row} : (Edit.rename name scope p).Rewrites r r' → e.Rewrites r r' :=
    he r r' ((Table.row?_congr hrows id).symm.trans hget)
  refine (tells_planRename_scope ht₁.sound h name scope p).ends_bind (fun plan? hscope => ?_) .of_error
  split
  · have hsame : scope = r.parent := hscope.symm.trans (Handle.parent_of_row hrow)
    refine .pure (.same hget (hrewrites ⟨r.name, r.provenance, ?_⟩))
    rw [hsame]
    exact r.withProvenance_provenance.symm
  · rename_i plan
    refine .look_bind ?_
    rw [Handle.isDerived_of_row hrow, if_neg Bool.false_ne_true]
    refine ends_carryOut_rewrites hq ht₁ hr.isReady hrow hget (hrewrites ⟨plan.name, plan.provenance, ?_⟩)
    obtain rfl : plan.scope = scope := hscope
    rfl

end

/-- Every edit but a deletion rewrites the row of its symbol. There is one lemma for each edit, and
to set a name or a scope is to rename. A deletion is left out, since it leaves no row that could be
compared. -/
theorem ends_perform_rewrites (hq : Quiet notify) (ht : t.Reliable) (hkey : (t.handle h).key = .stored id)
    {e : Edit} (he : e ≠ .delete) : Ends t (perform notify h e) (Rewriting t id e) := by
  have hmap {γ : Type} {a : Action σ γ} {f : γ → Reply HandleId} (ha : Ends t a (Rewriting t id e)) :
      Ends t (f <$> a) (Rewriting t id e) :=
    .map ha (fun x _ hrewrites _ _ => hrewrites x rfl) fun _ _ _ => .of_error _
  cases e with
  | setProvenance p => exact hmap (ends_setProvenance_rewrites hq ht hkey p)
  | setPinned pinned => exact hmap (ends_setPinned_rewrites hq ht hkey pinned)
  | rename name scope p => exact hmap (ends_rename_rewrites hq ht hkey name scope p fun _ _ _ h => h)
  | setName name p =>
    refine hmap (ends_current_rewrites ht hkey fun t₁ r hr ht₁ hrow hget => .look_bind ?_)
    refine ends_rename_rewrites hq ht₁ (hr.path.key_stored ht.sound hkey) name _ p ?_
    rintro r₁ _ hget₁ ⟨name, p, rfl⟩
    obtain rfl : r = r₁ := Option.some.inj (hget.symm.trans hget₁)
    rw [Handle.parent_of_row hrow]
    exact ⟨name, p, rfl⟩
  | setScope scope =>
    refine hmap (ends_current_rewrites ht hkey fun t₁ r hr ht₁ hrow hget => ?_)
    refine (reads_nameOf h).ends_bind (fun name => .look_bind ?_) .of_error
    exact ends_rename_rewrites hq ht₁ (hr.path.key_stored ht.sound hkey) name scope _ fun _ _ _ h => h
  | setAddress a => exact hmap (ends_setAddress_rewrites hq ht hkey a)
  | relocate oldBase newBase => exact hmap (ends_relocate_rewrites ht hkey oldBase newBase)
  | setData1 value =>
    refine hmap (ends_setData_rewrites hq ht hkey (fun r hsame => ?_) fun _ => rfl)
    obtain rfl := of_decide_eq_true hsame
    rfl
  | setData2 value =>
    refine hmap (ends_setData_rewrites hq ht hkey (fun r hsame => ?_) fun _ => rfl)
    obtain rfl := of_decide_eq_true hsame
    rfl
  | setData3 value =>
    refine hmap (ends_setData_rewrites hq ht hkey (fun r hsame => ?_) fun _ => rfl)
    obtain rfl := of_decide_eq_true hsame
    rfl
  | setPrimary => exact hmap (ends_setPrimary_rewrites hq ht hkey)
  | delete => exact absurd rfl he

end Action

/-! ## Writes in runs -/

/-- **Writes touch only their own columns.** Whatever was done to a table since it was opened empty,
by moves, behind its back and by listeners, and as long as the writes fit a word: an edit of a
stored symbol, other than a deletion, that is not refused replaces the row that the store holds by
one that differs from it in the columns of the edit at most. Its id, its tag and the reserved bits
of its flags are the same, and so is every other row. The listener of the edit does not act on the
table. -/
theorem Runs.writes_touch_their_columns {rules : Rules} {s₀ s : Situated σ} (hnew : s₀.table.IsNew rules)
    (hrun : Runs Move.any false s₀ s) (hlt : s.table.writes < UInt64.size)
    (hkey : (s.table.handle h).key = .stored id) (hq : Quiet notify) {e : Edit} (he : e ≠ .delete)
    (hok : ((perform notify h e).run s).1.isOk) :
    let t' := ((perform notify h e).run s).2.table
    ∃ r r', s.table.row? id = some r ∧ t'.row? id = some r' ∧ e.Rewrites r r' ∧ r'.id = r.id ∧
      r'.tag = r.tag ∧ r'.flags &&& Row.reservedBits = r.flags &&& Row.reservedBits ∧
      ∀ x, x ≠ id → t'.row? x = s.table.row? x := by
  have hends := ends_perform_rewrites hq (Runs.reliable hnew hrun hlt) hkey he s rfl
  cases hanswer : ((perform notify h e).run s).1 with
  | error fault =>
    rw [hanswer] at hok
    cases hok
  | ok reply =>
    obtain ⟨r, r', hget, hrewrites, hreplaces⟩ := hends reply hanswer
    obtain ⟨hid, htag, hflags⟩ := hrewrites.keeps
    obtain rfl : r'.id = id := hid.trans (Table.id_of_row? hget)
    refine ⟨r, r', hget, ?_, hrewrites, hid, htag, hflags, fun x hx => ?_⟩
    · rw [hreplaces, if_pos rfl]
    · rw [hreplaces, if_neg hx]

/-- A label is created. Behind the table's back its row gets another datum and a reserved bit, and
then the label gets another name. -/
theorem Runs.writes_touch_their_columns_of_put :
    let id : SymbolId := ⟨1, by decide⟩
    let s₀ : Situated Unit := ⟨.empty default .standard, (), 0⟩
    let draft : Draft := ⟨"start", .label, .ram 16, .global, .userDefined, 0, 0, none⟩
    let go (s : Situated Unit) (m : Move) := ((m.action Listener.idle).run s).2
    let s := [.create draft, .put { draft.row id with data1 := 7, flags := 0x83 }].foldl go s₀
    let e : Edit := .setName "main" .userDefined
    let answer := (perform Listener.idle 0 e).run s
    s₀.table.IsNew .standard ∧ Runs Move.any false s₀ s ∧ s.table.writes < UInt64.size ∧
      (s.table.handle 0).key = .stored id ∧ Quiet (Listener.idle : Listener Unit) ∧ e ≠ .delete ∧
      answer.1.isOk ∧
      ∃ r r', s.table.row? id = some r ∧ answer.2.table.row? id = some r' ∧ e.Rewrites r r' ∧ r'.id = r.id ∧
        r'.tag = r.tag ∧ r'.flags &&& Row.reservedBits = r.flags &&& Row.reservedBits ∧
        ∀ x, x ≠ id → answer.2.table.row? x = s.table.row? x := by
  intro id s₀ draft go s e answer
  have hnew : s₀.table.IsNew .standard := .memory _ _ _
  have hrun : Runs Move.any false s₀ s := .move (.move .refl trivial .idle) trivial .idle
  have hlt : s.table.writes < UInt64.size := by decide
  have hkey : (s.table.handle 0).key = .stored id := by decide
  have hq : Quiet (Listener.idle : Listener Unit) := fun _ s => .refl s.table
  have hok : answer.1.isOk := by decide
  exact ⟨hnew, hrun, hlt, hkey, hq, nofun, hok,
    Runs.writes_touch_their_columns hnew hrun hlt hkey hq nofun hok⟩

end SymbolTable
