import SymbolTable.Proofs.Chronicle
import SymbolTable.Proofs.Coherence
import SymbolTable.Proofs.Action.Showing
import SymbolTable.Proofs.Action.Spreading

/-!
# What a refusal leaves behind

A refused action may have changed something before it was refused. Creating and renaming check
everything before the one write that they make, so they are refused before it (`Table.Rejected`),
unless a name is asked for after it: a row that borrows its name is shown under the name of another
one, which the store is asked for then (`ends_displayName`), and a borrower is refreshed before it
is told of. A borrower that was just asked for its name has its row (`Table.IsThere`), so nothing
but the store refuses this.
-/

namespace SymbolTable

open Table (Path Step upkeep)

variable {σ α β : Type} {t t₁ t₂ t' : Table} {notify : Listener σ} {h : HandleId}

namespace Table

/-! ## How far it came -/

/-- The rows are the same and nothing was noted: at most, an id was drawn for nothing and handles
were kept up. -/
structure Unwritten (t t' : Table) : Prop extends t.Unnoted t' where
  rows : t'.rows = t.rows
  writes : t'.writes = t.writes

/-- One row was written, and that was all. -/
structure WritesOne (t : Table) (r : Row) (t' : Table) : Prop where
  mem_rows : ∀ x, x ∈ t'.rows ↔ x = r ∨ x ∈ t.rows ∧ x.id ≠ r.id
  writes : t'.writes = t.writes + 1

/-- What a written row leaves is told by the store alone, so it does not matter what is done beside
it. It is used where something beside the store changes after a write. -/
theorem WritesOne.of_store_eq {r : Row} (h : t.WritesOne r t₁) (hstore : t₂.store = t₁.store) :
    t.WritesOne r t₂ := by
  have hrows : t₂.rows = t₁.rows := congrArg (·.backend.rows) hstore
  have hwrites : t₂.writes = t₁.writes := congrArg Store.writes hstore
  refine ⟨?_, hwrites.trans h.writes⟩
  rw [hrows]
  exact h.mem_rows

/-- The fault is that the store did not say which row is under an id. -/
def FailsToGet (t : Table) (fault : Fault) : Prop :=
  ∃ cause id, fault = .store cause ∧ t.store.MayFail .get (some id) cause

/-- Whether the store says which row is under an id depends on the store alone. -/
theorem FailsToGet.of_store_eq {fault : Fault} (h : t.FailsToGet fault) (hstore : t'.store = t.store) :
    t'.FailsToGet fault := by
  rwa [FailsToGet, hstore]

/-- How far an action that writes one row had come when it was refused. -/
inductive Rejected (t : Table) (fault : Fault) : Table → Prop where
  /-- It had done nothing yet. -/
  | untouched {t' : Table} (huntouched : t.Untouched t') : Rejected t fault t'
  /-- The store did not give out an id or did not take the row. -/
  | unwritten {t' : Table} {cause : StoreFault} (hfault : fault = .store cause)
      (hunwritten : t.Unwritten t') : Rejected t fault t'
  /-- The row was written, but then the store did not say from which row a name is borrowed. -/
  | torn {t' : Table} {r : Row} (hwrites : t.WritesOne r t') (hfails : t'.FailsToGet fault)
      (hborrows : ∃ x, (x ∈ t.rows ∨ x ∈ t'.rows) ∧ (t'.rules.lender? x).isSome) :
      Rejected t fault t'

/-- A refusal does not change its sort if at most handles were kept up before. A walk of questions
comes before every write, and it may refresh handles. So what is refused after it is compared with
the table before it. -/
theorem Rejected.after {fault : Fault} (h : t₁.Rejected fault t') (huntouched : t.Untouched t₁) :
    t.Rejected fault t' := by
  cases h with
  | untouched h => exact .untouched (huntouched.trans h)
  | unwritten hfault h =>
    refine .unwritten hfault ⟨huntouched.toUnnoted.trans h.toUnnoted, h.rows.trans huntouched.rows_eq, ?_⟩
    exact h.writes.trans huntouched.writes_eq
  | torn hwrites hfails hborrows =>
    have hmem := hwrites.mem_rows
    rw [huntouched.rows_eq] at hmem hborrows
    exact .torn ⟨hmem, by rw [hwrites.writes, huntouched.writes_eq]⟩ hfails hborrows

end Table

namespace Action

/-! ## Names that cannot be had -/

/-- The name of a row is only refused where it is borrowed and the store does not say from which
row. A row with a name of its own is not asked about at all, and a fault has to be that of the call
for the row that lends. -/
theorem ends_displayName (hb : t.store.backend.Sound) (r : Row) :
    Ends t (displayName r : Action σ _) fun answer t' => t' = t ∧
      ∀ fault, answer = .error fault → t.FailsToGet fault ∧ (t.rules.lender? r).isSome := by
  refine (ends_shown hb r).imp ?_
  rintro _ _ ⟨htable, rfl | ⟨hlends, cause, id, hfails, rfl⟩⟩
  · exact ⟨htable, nofun⟩
  · refine ⟨htable, ?_⟩
    rintro _ ⟨⟩
    exact ⟨⟨cause, id, rfl, hfails⟩, hlends⟩

/-- The name of a symbol is refused only where its row borrows it and the store does not say from
whom, and nothing is changed then. -/
theorem ends_nameOf (hb : t.store.backend.Sound) (h : HandleId) :
    Ends t (nameOf h : Action σ _) fun answer t' => t' = t ∧ ∀ fault, answer = .error fault →
      t.FailsToGet fault ∧ ∃ r, (t.handle h).row = some r ∧ (t.rules.lender? r).isSome := by
  refine .look_bind ?_
  split
  · rename_i r hrow
    exact (ends_displayName hb r).imp fun _ _ hshown =>
      ⟨hshown.1, fun fault hfault => ⟨(hshown.2 fault hfault).1, r, hrow, (hshown.2 fault hfault).2⟩⟩
  · exact .look ⟨rfl, fun _ hfault => nomatch hfault⟩

end Action

/-! ## Symbols that are there -/

namespace Table

/-- The handle is not marked deleted, and where it has a row, one of its kind is stored under the
id. -/
structure IsThere (t : Table) (h : HandleId) : Prop where
  live : (t.handle h).deleted = false
  stored : ∀ r, (t.handle h).row = some r → ∃ x, t.row? r.id = some x ∧ x.tag = r.tag

/-- An open table in which the copies of rows that are taken for current are so. -/
structure Reliable (t : Table) : Prop where
  sound : t.Sound
  coherent : t.Coherent
  writes_lt : t.writes < UInt64.size
  opened : t.closed = false

namespace Reliable

/-- A reliable table goes over into one, until versions run out. -/
theorem of_path {may : Deed → Prop} (ht : t.Reliable) (hpath : Path may t t') (hlt : t'.writes < UInt64.size) :
    t'.Reliable :=
  ⟨hpath.sound ht.sound, hpath.coherent ht.sound hlt ht.coherent, hlt, hpath.sameFrame.closed.trans ht.opened⟩

/-- A table that is reliable stays so while handles are kept up. -/
theorem of_upkeep (ht : t.Reliable) (hpath : Path upkeep t t') : t'.Reliable := by
  have hwrites : t'.writes = t.writes := congrArg Store.writes hpath.upkeep.1
  exact ht.of_path hpath (hwrites ▸ ht.writes_lt)

/-- The row of a handle that is ready is the one that is stored. A copy that has seen the last write
is the row, since the count of writes has not come round. -/
theorem row?_eq (ht : t.Reliable) (hready : t.IsReady h) {r : Row} (hrow : (t.handle h).row = some r) :
    t.row? r.id = some r := by
  rcases hready.current with hnone | hseen
  · cases hrow.symm.trans hnone
  · exact (ht.coherent h).row?_eq ht.writes_lt hrow hseen

/-- The symbol of a handle that is ready is there. -/
theorem isThere (ht : t.Reliable) (hready : t.IsReady h) : t.IsThere h :=
  ⟨hready.live, fun r hrow => ⟨r, ht.row?_eq hready hrow, rfl⟩⟩

end Reliable

namespace IsThere

/-- Whether a symbol is there depends on its handle and on the rows alone. -/
theorem of_handle_eq (hthere : t.IsThere h) (heq : t'.handle h = t.handle h) (hrows : t'.rows = t.rows) :
    t'.IsThere h := by
  constructor
  · rw [heq]
    exact hthere.live
  · intro r hrow
    rw [row?_congr hrows]
    exact hthere.stored r (heq ▸ hrow)

/-- What is there is still there when handles have been kept up. A handle that is refreshed is
marked deleted only where its row is gone or has another kind, which is not the case. -/
theorem of_step (hthere : t.IsThere h) (hstep : Step upkeep t t') : t'.IsThere h := by
  have hrows : t'.rows = t.rows := congrArg (·.backend.rows) hstep.upkeep.1
  cases hstep with
  | aside hbeside => exact hthere.of_handle_eq (hbeside.handle h) hrows
  | adopt s =>
    refine hthere.of_handle_eq ?_ hrows
    rw [handle_adopt, if_neg (Nat.ne_of_lt (lt_of_live hthere.live))]
  | @refresh k r row _ hrow _ hget htag =>
    rcases t.handle_updateHandle_or k (·.refreshed row t.store.modificationCount) h with heq | ⟨rfl, heq⟩
    · exact hthere.of_handle_eq heq hrows
    · refine ⟨by rw [heq]; exact hthere.live, fun x hx => ?_⟩
      rw [heq] at hx
      obtain rfl : row = x := Option.some.inj hx
      rw [row?_congr hrows, id_of_row? hget]
      exact ⟨row, hget, rfl⟩
  | @vanish k r _ hrow _ hgone =>
    rcases t.handle_updateHandle_or k (·.invalidated) h with heq | ⟨rfl, -⟩
    · exact hthere.of_handle_eq heq hrows
    · obtain ⟨x, hget, htag⟩ := hthere.stored r hrow
      exact absurd htag (hgone x hget)
  | edit h hrow hedits =>
    cases hedits with
    | mark hmay | rename hmay | readdress hmay => exact hmay.elim
  | plan hmay | draw hmay | insert hmay | create hmay | promote hmay | mark hmay | takeOut hmay
  | relocate hmay | intrudePut hmay | intrudeTake hmay => exact hmay.elim

/-- A symbol that is there is still there after any number of steps of upkeep. -/
theorem of_upkeep (hthere : t.IsThere h) (hpath : Path upkeep t t') : t'.IsThere h := by
  induction hpath with
  | refl => exact hthere
  | tail _ hstep ih => exact ih.of_step hstep

/-- What is there is still there when a stored row has been written that keeps its kind. It may be
the symbol of the row itself, which then has the new row, or any other one, whose row has another
id. -/
theorem written {k : HandleId} (hthere : t.IsThere k) (hs : t.Sound) {r r' : Row} {b : Store.Backend}
    (hget : t.row? r.id = some r) (hid : r'.id = r.id) (htag : r'.tag = r.tag)
    (hputs : t.store.backend.Puts r' b) : (t.written h r' b).IsThere k := by
  have hrow? (id : SymbolId) : (t.written h r' b).row? id = if id = r'.id then some r' else t.row? id :=
    row?_puts hs.backend hputs id
  unfold Table.written at hrow? ⊢
  rcases (t.withBackend b).handle_updateHandle_or h
    (·.refreshed r' (t.withBackend b).store.modificationCount) k with heq | ⟨rfl, heq⟩
  · refine ⟨by rw [heq]; exact hthere.live, fun x hx => ?_⟩
    rw [heq] at hx
    obtain ⟨y, hy, hytag⟩ := hthere.stored x hx
    rw [hrow?]
    split
    · rename_i hxid
      rw [hxid, hid, hget] at hy
      obtain rfl := Option.some.inj hy
      exact ⟨r', rfl, htag.trans hytag⟩
    · exact ⟨y, hy, hytag⟩
  · refine ⟨by rw [heq]; exact hthere.live, fun x hx => ?_⟩
    rw [heq] at hx
    obtain rfl : r' = x := Option.some.inj hx
    exact ⟨r', by rw [hrow?, if_pos rfl], rfl⟩

end IsThere

/-- A table stays sound when a row takes the place of one with its id and its kind. The copy of the
handle is replaced together with the row, so the handle is in order again. -/
theorem Sound.written (hs : t.Sound) {r r' : Row} {b : Store.Backend} (hrow : (t.handle h).row = some r)
    (hid : r'.id = r.id) (htag : r'.tag = r.tag) (hputs : t.store.backend.Puts r' b) :
    (t.written h r' b).Sound := by
  refine ⟨hputs.sound, fun k => ?_⟩
  unfold Table.written
  rw [handle_updateHandle_withBackend]
  exact forall_updateHandle hs.inOrder ((hs.inOrder h).refreshed hrow hid htag _) k

/-- Of what is there, only the store keeps a refresh from being done. Its row is found with its
kind, and it is not marked deleted, so a refusal can only come from the question for the row. -/
theorem Refreshed.failsToGet {fault : Fault} (hr : t.Refreshed h (.error fault) t')
    (hthere : t.IsThere h) : t' = t ∧ t.FailsToGet fault := by
  cases hr with
  | vanished _ hrow _ hgone =>
    obtain ⟨x, hget, htag⟩ := hthere.stored _ hrow
    exact absurd htag (hgone x hget)
  | deleted hdeleted => cases hthere.live.symm.trans hdeleted
  | failed cause hfails => exact ⟨rfl, cause, _, rfl, hfails⟩

end Table

/-- A listener that only records touches neither rows nor handles. -/
theorem Listener.Records.beside (hn : notify.Records) (e : Event) (s : Situated σ) :
    s.table.Beside (notify e s).table :=
  have hbeside := (hn e s).beside
  ⟨hbeside.store, hbeside.handles, hbeside.pool, hbeside.settings, hbeside.rules, hbeside.closed⟩

namespace Action

/-- What is done to a symbol that is there is refused before it is begun only if the store fails.
The table is open and the row of its kind is stored, so the one thing that can go wrong with the
refresh is that the store does not answer. -/
theorem Ends.current_of_isThere {a : Action σ α} {Q : Except Fault α → Table → Prop} (ht : t.Sound)
    (hopen : t.closed = false) (hthere : t.IsThere h)
    (hrefused : ∀ fault, t.FailsToGet fault → Q (.error fault) t)
    (ha : ∀ t', t.Refreshed h (.ok ()) t' → Ends t' a Q) : Ends t (Action.current h a) Q := by
  refine .ask_bind (fun _ _ => .bind (ends_refresh ht h) (fun _ t' hr => ha t' hr) ?_) ?_
  · intro fault t' hr
    obtain ⟨rfl, hfails⟩ := hr.failsToGet hthere
    exact hrefused fault hfails
  · intro fault hfault
    rw [hopen] at hfault
    cases hfault

/-! ## Telling of names -/

section
variable (hn : notify.Records) (ht : t.Sound) (hopen : t.closed = false)

include hn ht hopen

/-- Of a borrower that is there, only the store keeps the listener from being told. Nothing but its
handle changes. The name that it shows now is told, but the log is no part of what is compared
here. -/
theorem ends_announceBorrower (hthere : t.IsThere h) (old : String) :
    Ends t (announceBorrower notify h old) fun answer t' => Path upkeep t t' ∧
      ∀ fault, answer = .error fault → t.FailsToGet fault := by
  have hheeds : Heeds (.steps upkeep) notify := hn.heeds Course.aloof_steps.logs
  refine (follows_announceBorrower hheeds h old t ht).and ?_
  have hname : Ends t (currentName h : Action σ _) fun answer t₁ => Path upkeep t t₁ ∧
      ∀ fault, answer = .error fault → t.FailsToGet fault := by
    refine (follows_name (c := .steps upkeep) h t ht).and (.current_of_isThere ht hopen hthere ?_ ?_)
    · rintro _ hfails _ ⟨⟩
      exact hfails
    · intro t₁ hr
      refine (ends_nameOf (hr.path.sound ht).backend h).imp fun _ _ hshown fault hfault => ?_
      exact (hshown.2 fault hfault).1.of_store_eq hr.path.upkeep.1.symm
  refine .bind hname ?_ ?_
  · rintro new t₁ ⟨hpath, -⟩
    have htold (a : Address) (t₂ : Table) : Ends t₂ (emit notify (t₁.handle h).key a (.renamed old new))
        fun answer _ => ∀ fault, answer = .error fault → t.FailsToGet fault :=
      .emit fun _ _ _ hfault => nomatch hfault
    refine .look_bind (.seq (.current_of_isThere (hpath.sound ht) (hpath.sameFrame.closed.trans hopen)
      (hthere.of_upkeep hpath) ?_ fun t₂ _ => .look (.ok (htold _ t₂))))
    rintro _ hfails _ ⟨⟩
    exact hfails.of_store_eq hpath.upkeep.1.symm
  · rintro fault t₁ ⟨-, hfails⟩ _ ⟨⟩
    exact hfails fault rfl

/-- Of borrowers that are there, only the store keeps the listener from being told, and only if
there is one at all. -/
theorem ends_announceBorrowers (borrowers : List (HandleId × String))
    (hthere : ∀ b ∈ borrowers, t.IsThere b.1) :
    Ends t (borrowers.forM fun b => announceBorrower notify b.1 b.2) fun answer _ =>
      ∀ fault, answer = .error fault → t.FailsToGet fault ∧ borrowers ≠ [] := by
  induction borrowers generalizing t with
  | nil => exact .pure fun _ hfault => nomatch hfault
  | cons b rest ih =>
    rw [List.forM_eq_forM, List.forM_cons]
    refine .bind (ends_announceBorrower hn ht hopen (hthere b (.head _)) b.2) ?_ ?_
    · rintro _ t₁ ⟨hpath, -⟩
      have hthere₁ : ∀ x ∈ rest, t₁.IsThere x.1 := fun x hx => (hthere x (.tail _ hx)).of_upkeep hpath
      refine (ih (hpath.sound ht) (hpath.sameFrame.closed.trans hopen) hthere₁).imp ?_
      intro _ _ hrest fault hfault
      exact ⟨(hrest fault hfault).1.of_store_eq hpath.upkeep.1.symm, List.cons_ne_nil _ _⟩
    · rintro fault t₁ ⟨-, hfails⟩ _ ⟨⟩
      exact ⟨hfails fault rfl, List.cons_ne_nil _ _⟩

/-- Where borrowers are there, only the store keeps the listener from being told of the names, and
only if a name is borrowed. -/
theorem ends_announceName (key : Key) (a : Address) (old : String) (borrowers : List (HandleId × String))
    (hthere : ∀ b ∈ borrowers, t.IsThere b.1) :
    Ends t (announceName notify h key a old borrowers) fun answer t' => Path upkeep t t' ∧
      ∀ fault, answer = .error fault → t.FailsToGet fault ∧
        ((∃ r, (t.handle h).row = some r ∧ (t.rules.lender? r).isSome) ∨ borrowers ≠ []) := by
  have hheeds : Heeds (.steps upkeep) notify := hn.heeds Course.aloof_steps.logs
  refine (follows_announceName hheeds Course.aloof_steps.deaf.notes h key a old borrowers t ht).and ?_
  refine .bind (ends_nameOf ht.backend h) ?_ ?_
  · rintro new t ⟨rfl, -⟩
    refine .change_bind (.seq (.emit fun s hs => .ok ?_))
    have hbeside := hn.beside ⟨key, a, .renamed old new⟩ s
    rw [hs] at hbeside
    have hpath : Path upkeep t (notify ⟨key, a, .renamed old new⟩ s).table :=
      .single (.aside ⟨hbeside.store, hbeside.handles, hbeside.pool, hbeside.settings, hbeside.rules,
        hbeside.closed⟩)
    refine (ends_announceBorrowers hn (hpath.sound ht) (hpath.sameFrame.closed.trans hopen) borrowers
      fun b hb => (hthere b hb).of_upkeep hpath).imp fun _ _ hrest fault hfault => ?_
    obtain ⟨hfails, hne⟩ := hrest fault hfault
    exact ⟨hfails.of_store_eq hpath.upkeep.1.symm, .inr hne⟩
  · rintro fault _ ⟨rfl, hshown⟩ _ ⟨⟩
    exact ⟨(hshown fault rfl).1, .inl (hshown fault rfl).2⟩

end

/-! ## One write -/

/-- What holds when an action is refused holds when it is refused as a part of another one. What is
made of the answer has no part in it. -/
theorem Ends.refused_map {Q : Fault → Table → Prop} {a : Action σ α} {f : α → β}
    (ha : Ends t a fun answer t' => ∀ fault, answer = .error fault → Q fault t') :
    Ends t (f <$> a) fun answer t' => ∀ fault, answer = .error fault → Q fault t' := by
  refine .map ha (fun _ _ _ _ hfault => nomatch hfault) ?_
  rintro fault t' hrefused _ ⟨⟩
  exact hrefused fault rfl

/-- However the action is refused, it had come so far. -/
def Rejects (t : Table) (a : Action σ α) : Prop :=
  Ends t a fun answer t' => ∀ fault, answer = .error fault → t.Rejected fault t'

namespace Rejects

/-- What touches nothing but handles may be refused for any reason. -/
theorem of_spares {a : Action σ α} (ha : Spares a) : Rejects t a :=
  (ha t).imp fun _ _ huntouched _ _ => .untouched huntouched

/-- What an answer is known to be is known in what comes next. So the checks, which only read, leave
their findings to the rest. -/
theorem tells_bind {a : Action σ α} {f : α → Action σ β} {P : α → Prop} (ha : Tells t a P)
    (hf : ∀ x, P x → Rejects t (f x)) : Rejects t (a >>= f) :=
  ha.ends_bind hf fun _ _ _ => .untouched (.refl t)

/-- What comes after an action that leaves the table untouched. A refusal of it is rejected as it
is, and the rest starts at an untouched table, with what the answer tells. -/
theorem ends_bind {a : Action σ α} {f : α → Action σ β} {R : Except Fault α → Table → Prop}
    (ha : Spares a) (h : Ends t a R) (hf : ∀ x t₁, t.Untouched t₁ → R (.ok x) t₁ → Rejects t₁ (f x)) :
    Rejects t (a >>= f) := by
  refine .bind ((ha t).and h) ?_ fun fault _ ⟨huntouched, _⟩ _ _ => .untouched huntouched
  rintro x t₁ ⟨huntouched, hx⟩
  exact (hf x t₁ huntouched hx).imp fun _ _ hrejected fault hfault =>
    (hrejected fault hfault).after huntouched

/-- What is done once the handle is current is rejected as it is from where the handle was
refreshed. -/
theorem current {a : Action σ α} (ht : t.Sound) (h : HandleId)
    (ha : ∀ t₁, t.Refreshed h (.ok ()) t₁ → Rejects t₁ a) : Rejects t (current h a) := by
  refine Ends.current ht h (fun _ _ _ => .untouched (.refl t)) (fun _ _ hr _ _ => .untouched hr.untouched) ?_
  intro t₁ hr
  exact (ha t₁ hr).imp fun _ _ hrejected fault hfault => (hrejected fault hfault).after hr.untouched

/-- A fresh row is stored under an id that is drawn for it. The id may have been drawn for nothing
if the row cannot be put, which changes no row. What comes after the write sees a table that differs
by this row alone. -/
theorem stores (ht : t.Sound) {row : SymbolId → Row} {f : SymbolId → Action σ α}
    (hf : ∀ id b, t.store.backend.allocate.1 = .ok id → t.store.backend.allocate.2.Puts (row id) b →
      t.WritesOne (row id) (t.withBackend b) → Ends (t.withBackend b) (f id) fun answer t' =>
        ∀ fault, answer = .error fault → t.Rejected fault t') :
    Rejects t (drawId >>= fun id => putRow (row id) >>= fun _ => f id) := by
  have hdrawn : t.Unwritten (t.withBackend t.store.backend.allocate.2) :=
    ⟨⟨rfl, rfl, rfl, rfl⟩, ht.rows_draw, ht.backend.allocate.2.2.1⟩
  refine .drawRow ht.backend (fun id b hdraw hputs => hf id b hdraw hputs ⟨?_, ?_⟩) ?_ ?_
  · intro x
    rw [← ht.rows_draw]
    exact hputs.mem_rows x
  · exact hputs.writes.trans (congrArg (· + 1) ht.backend.allocate.2.2.1)
  · rintro cause _ ⟨⟩
    exact .untouched (.refl t)
  · rintro cause _ ⟨⟩
    exact .unwritten rfl hdrawn

end Rejects

/-- A symbol is created, or nothing is written, unless the name that it borrows cannot be had. All
checks come before the write. After it there is one more call that may fail, which asks for the name
of the lender of an unnamed function. -/
theorem rejects_create (ht : t.Sound) (draft : Draft) : Rejects t (create notify draft) := by
  refine .look_bind ?_
  generalize draft.settled t.rules = d
  refine Rejects.tells_bind (tells_checkDraft ht d) fun _ _ => .stores ht fun id b _ hputs hwrites => ?_
  refine .change_bind (.change_bind ?_)
  generalize hstored : ((t.withBackend b).dropDerived d.address).claimPrimary d.address id d.kind = t₁
  have hstore : t₁.store = (t.withBackend b).store := by
    rw [← hstored, (Table.beside_claimPrimary _ _ _ _).store, Table.store_dropDerived]
  have hwrites₁ := hwrites.of_store_eq hstore
  have hb : t₁.store.backend.Sound := hstore ▸ hputs.sound
  refine .bind (ends_displayName hb _) ?_ ?_
  · -- nothing is refused any more, since the tag of the row stands for a kind
    rintro shown t₁ ⟨rfl, -⟩
    refine .look_bind (.seq (.conclude ?_))
    have hkind : (d.row id).kind? = some d.kind := Kind.ofTag?_eq_some_iff.2 rfl
    rw [Handle.ofRow, hkind]
    refine .ok (.look_bind (.change_bind (.seq (.emit fun _ _ => .ok (.pure ?_)))))
    intro _ hfault
    cases hfault
  · rintro fault t₁ ⟨rfl, hshown⟩ _ ⟨⟩
    obtain ⟨hfails, hlends⟩ := hshown fault rfl
    exact .torn hwrites₁ hfails ⟨d.row id, .inr ((hwrites₁.mem_rows _).2 (.inl rfl)), hlends⟩

/-- A derived symbol is stored, or nothing is written, unless its name cannot be had. The checks
were made when the rename was planned. After the write there is the name to be told, which may be
borrowed. -/
theorem rejects_promote (ht : t.Sound) (hrow : (t.handle h).row = none) (plan : Rename) :
    Rejects t (promote notify h plan) := by
  refine Ends.look_bind (Rejects.stores ht fun id b _ hputs hwrites => ?_)
  generalize Row.fresh id (t.handle h).kind (t.handle h).address plan.name plan.scope plan.provenance = row
    at hputs hwrites ⊢
  refine .change_bind (.change_bind ?_)
  generalize hstored : ((t.withBackend b).embody h row).claimPrimary (t.handle h).address id
    (t.handle h).kind = t₁
  have hbeside : ((t.withBackend b).embody h row).Beside t₁ := hstored ▸ Table.beside_claimPrimary _ _ _ _
  have hwrites₁ := hwrites.of_store_eq hbeside.store
  have hb : t₁.store.backend.Sound := hbeside.store ▸ hputs.sound
  refine .bind (ends_nameOf hb h) ?_ ?_
  · rintro name t₁ ⟨rfl, -⟩
    have htold (t₂ : Table) : Ends t₂ (if name ≠ plan.oldName then
        emit notify (.stored id) (t.handle h).address (.renamed plan.oldName name) else pure ())
        fun answer t' => ∀ fault, answer = .error fault → t.Rejected fault t' := by
      split
      · exact .emit fun _ _ _ hfault => nomatch hfault
      · exact .pure fun _ hfault => nomatch hfault
    refine .change_bind (.seq (.emit fun _ _ => .ok ?_))
    dsimp only
    split
    · exact .seq (.emit fun _ _ => .ok (htold _))
    · exact htold _
  · rintro fault t₁ ⟨rfl, hshown⟩ _ ⟨⟩
    obtain ⟨hfails, r, hhas, hlends⟩ := hshown fault rfl
    rw [hbeside.handle, Table.handle_embody] at hhas
    rcases (t.withBackend b).handle_updateHandle_or h
      (·.promoted row (t.withBackend b).store.modificationCount) h with heq | ⟨-, heq⟩
    · rw [heq] at hhas
      cases hrow.symm.trans hhas
    · rw [heq] at hhas
      obtain rfl : row = r := Option.some.inj hhas
      exact .torn hwrites₁ hfails ⟨row, .inr ((hwrites₁.mem_rows _).2 (.inl rfl)), hlends⟩

/-- There are borrowers only where a row borrows its name. Only functions lend their names, and the
rows that have one of them for a lender are looked for among all rows. -/
theorem ends_borrowers (ht : t.Sound) (h : HandleId) :
    Ends t (borrowers h : Action σ _) fun answer _ => ∀ bs, answer = .ok bs → bs ≠ [] →
      ∃ x ∈ t.rows, (t.rules.lender? x).isSome := by
  refine .look_bind ?_
  split
  · rintro _ - _ ⟨⟩ hne
    exact absurd rfl hne
  · rename_i id _
    split
    · rintro _ - _ ⟨⟩ hne
      exact absurd rfl hne
    · refine .seq (.allRows ht.backend (.ok (.look_bind ?_)) fun _ _ => nofun)
      cases hborrow : t.rows.filter (t.rules.lender? · = some id) with
      | nil =>
        rintro _ - _ ⟨⟩ hne
        exact absurd rfl hne
      | cons x xs =>
        intro _ _ _ _ _
        have hx : x ∈ t.rows.filter (t.rules.lender? · = some id) := hborrow ▸ List.mem_cons_self
        obtain ⟨hmem, hlender⟩ := List.mem_filter.1 hx
        exact ⟨x, hmem, Option.isSome_of_eq_some (of_decide_eq_true hlender)⟩

/-- Symbols that have been asked for their names are ready. Each question refreshes the handle that
it asks, and leaves those that were asked before ready. The induction is on the list. -/
theorem ends_currentNames (ht : t.Sound) (hs : List HandleId) :
    Ends t (hs.mapM currentName : Action σ _) fun answer t' => Path upkeep t t' ∧
      ∀ names, answer = .ok names → ∀ k ∈ hs, t'.IsReady k := by
  induction hs generalizing t with
  | nil => exact .pure ⟨.refl, nofun⟩
  | cons k rest ih =>
    rw [List.mapM_cons]
    have hname : Ends t (currentName k : Action σ _) fun answer t₁ => Path upkeep t t₁ ∧
        ∀ name, answer = .ok name → t₁.IsReady k := by
      refine .current ht k (fun _ => ⟨.refl, nofun⟩) (fun _ _ hr => ⟨hr.path, nofun⟩) fun t₁ hr => ?_
      refine (reads_nameOf k t₁).imp ?_
      rintro _ _ rfl
      exact ⟨hr.path, fun _ _ => hr.isReady⟩
    refine .bind hname ?_ fun _ _ h₁ => ⟨h₁.1, nofun⟩
    rintro name t₁ ⟨hpath, hready⟩
    refine .bind (ih (hpath.sound ht)) ?_ fun _ _ h₂ => ⟨hpath.trans h₂.1, nofun⟩
    rintro names t₂ ⟨hpath₂, hreadies⟩
    refine .pure ⟨hpath.trans hpath₂, fun _ _ i hi => ?_⟩
    rcases List.mem_cons.1 hi with rfl | hi
    · exact (hready name rfl).of_upkeep hpath₂
    · exact hreadies names rfl i hi

/-- The row of a handle was written, and the symbols that may borrow its name are there. -/
structure Lends (t : Table) (h : HandleId) (r : Row) (borrowers : List HandleId) (t₁ : Table) : Prop where
  wrote : t.WritesOne r t₁
  sound : t₁.Sound
  opened : t₁.closed = false
  row : (t₁.handle h).row = some r
  isThere : ∀ k ∈ borrowers, t₁.IsThere k
  borrows : borrowers ≠ [] → ∃ x ∈ t.rows, (t₁.rules.lender? x).isSome

/-- Those that may borrow a name are still there when something was done beside rows and handles.
What goes on there is a step of the upkeep, under which a symbol that is there stays. -/
theorem Lends.of_beside {r : Row} {bs : List HandleId} (hlends : Lends t h r bs t₁)
    (hbeside : t₁.Beside t₂) : Lends t h r bs t₂ := by
  have hpath : Path upkeep t₁ t₂ := .single (.aside hbeside)
  refine ⟨hlends.wrote.of_store_eq hbeside.store, hpath.sound hlends.sound,
    hbeside.closed.trans hlends.opened, ?_, fun k hk => (hlends.isThere k hk).of_upkeep hpath, ?_⟩
  · rw [hbeside.handle, hlends.row]
  · rw [hbeside.rules]
    exact hlends.borrows

/-- When the row is written, everybody who is told of is there, so the listener is told, unless a
name that is borrowed cannot be had. -/
theorem Lends.announceName {r : Row} {bs : List HandleId} (hn : notify.Records) (hlends : Lends t h r bs t₁)
    (key : Key) (a : Address) (old : String) (names : List String) :
    Ends t₁ (announceName notify h key a old (bs.zip names)) fun answer t' =>
      ∀ fault, answer = .error fault → t.Rejected fault t' := by
  refine (ends_announceName hn hlends.sound hlends.opened key a old _ fun p hp =>
    hlends.isThere p.1 (List.of_mem_zip hp).1).imp ?_
  rintro answer t' ⟨hpath, hrefused⟩ fault hfault
  obtain ⟨hfails, hborrowed⟩ := hrefused fault hfault
  have hwrote := hlends.wrote.of_store_eq hpath.upkeep.1
  refine .torn hwrote (hfails.of_store_eq hpath.upkeep.1) ?_
  rw [hpath.sameFrame.rules]
  rcases hborrowed with ⟨x, hx, hlender⟩ | hne
  · obtain rfl : r = x := Option.some.inj (hlends.row.symm.trans hx)
    exact ⟨r, .inr ((hwrote.mem_rows _).2 (.inl rfl)), hlender⟩
  · have hne' : bs ≠ [] := by
      rintro rfl
      exact hne rfl
    obtain ⟨x, hx, hlender⟩ := hlends.borrows hne'
    exact ⟨x, .inl hx, hlender⟩

/-- The rename of a stored symbol is carried out, or nothing is written, unless a name that is
borrowed cannot be had. -/
theorem rejects_carryOut (hn : notify.Records) (ht : t.Reliable) (hready : t.IsReady h) (plan : Rename) :
    Rejects t (carryOut notify h plan) := by
  refine .look_bind ?_
  refine Rejects.ends_bind (spreads_spares.borrowers h)
    ((follows_borrowers (c := .steps upkeep) h t ht.sound).and (ends_borrowers ht.sound h)) ?_
  rintro bs t₁ huntouched₁ ⟨hpath₁, hborrows⟩
  refine Rejects.ends_bind (spreads_spares.mapM spreads_spares.currentName bs)
    (ends_currentNames (ht.of_upkeep hpath₁).sound bs) ?_
  rintro names t₂ huntouched₂ ⟨hpath₂, hreadies⟩
  have hpath : Path upkeep t t₂ := hpath₁.trans hpath₂
  have ht₂ := ht.of_upkeep hpath
  refine .seq (ends_write ht₂.sound h (fun r b hrow hputs => .ok ?_) fun _ _ _ => .untouched (.refl t₂))
  have hlends : Lends t₂ h (plan.apply r) bs (t₂.written h (plan.apply r) b) := by
    have hget := ht₂.row?_eq (hready.of_upkeep hpath) hrow
    refine ⟨⟨hputs.mem_rows, hputs.writes⟩, ht₂.sound.written hrow rfl rfl hputs, ht₂.opened, ?_,
      fun k hk => (ht₂.isThere (hreadies names rfl k hk)).written ht₂.sound hget rfl rfl hputs, fun hne => ?_⟩
    · exact congrArg Handle.row (Table.handle_updateHandle_self (t₂.withBackend b) (Table.lt_of_row hrow) _)
    · obtain ⟨x, hx, hlender⟩ := hborrows bs rfl hne
      refine ⟨x, (huntouched₁.trans huntouched₂).rows_eq ▸ hx, ?_⟩
      rwa [← hpath.sameFrame.rules] at hlender
  have hname (t₃ : Table) (hbeside : (t₂.written h (plan.apply r) b).Beside t₃) : Ends t₃ (if plan.renames then
      announceName notify h (t.handle h).key (t.handle h).address plan.oldName (bs.zip names)
      else pure ()) fun answer t' => ∀ fault, answer = .error fault → t₂.Rejected fault t' := by
    split
    · exact (hlends.of_beside hbeside).announceName hn _ _ _ names
    · exact .pure fun _ hfault => nomatch hfault
  dsimp only
  split
  · exact .seq (.emit fun s hs => .ok (hname _ (hs ▸ hn.beside _ s)))
  · exact hname _ ⟨rfl, rfl, rfl, rfl, rfl, rfl⟩

/-! ## Renaming -/

section
variable (hn : notify.Records) (ht : t.Reliable)

include hn ht

/-- A rename is refused before the one write that it makes, unless the store keeps a name from being
asked for. It is the same for stored and for derived symbols. -/
theorem rejects_rename (h : HandleId) (name : String) (scope : Scope) (p : Provenance) :
    Rejects t (rename notify h name scope p) := by
  refine .current ht.sound h fun t₁ hr => ?_
  have ht₁ := ht.of_upkeep hr.path
  refine .tells_bind (tells_planRename ht₁.sound h name scope p) fun plan? _ => ?_
  split
  · exact .of_spares (.of_reads (.pure ()))
  · rename_i plan _
    refine .look_bind ?_
    split
    · rename_i hderived
      exact rejects_promote ht₁.sound (Handle.isDerived_iff.1 hderived).1 plan
    · exact rejects_carryOut hn ht₁ hr.isReady plan

/-- To set a name is refused as the rename is that it comes to. -/
theorem rejects_setName (h : HandleId) (name : String) (p : Provenance) :
    Rejects t (setName notify h name p) :=
  .current ht.sound h fun _ hr => .look_bind (rejects_rename hn (ht.of_upkeep hr.path) h name _ p)

/-- To set a scope is refused as the rename is that it comes to. -/
theorem rejects_setScope (h : HandleId) (scope : Scope) : Rejects t (setScope notify h scope) :=
  .current ht.sound h fun _ hr => .tells_bind (reads_nameOf h).tells fun name _ =>
    .look_bind (rejects_rename hn (ht.of_upkeep hr.path) h name scope _)

end

end Action

/-! ## Moves and runs -/

/-- A move that stores a symbol under a name, or gives it another name or scope. -/
def Move.Names : Move → Prop
  | .create _ | .edit _ (.rename ..) | .edit _ (.setName ..) | .edit _ (.setScope _) => True
  | _ => False

/-- Each of the moves that give a name or a scope writes at most once, and is refused before that or
for the store. These are the moves that write something whose name has to be told. The others refuse
before they write, or delete, and are looked at on their own. -/
theorem Move.rejects (hn : notify.Records) (ht : t.Reliable) {m : Move} (hm : m.Names) :
    Action.Rejects t (m.action notify) := by
  cases m with
  | create draft => exact .refused_map (Action.rejects_create ht.sound draft)
  | edit h e =>
    refine .refused_map ?_
    cases e with
    | rename name scope p => exact .refused_map (Action.rejects_rename hn ht h name scope p)
    | setName name p => exact .refused_map (Action.rejects_setName hn ht h name p)
    | setScope scope => exact .refused_map (Action.rejects_setScope hn ht h scope)
    | setProvenance | setPinned | setAddress | relocate | setData1 | setData2 | setData3 | setPrimary
    | delete => exact hm.elim
  | query | search | put | take => exact hm.elim

/-- Whatever was done, a table is reliable until its writes do not fit a word any more. Versions are
counted in a word, and a copy could be taken for current by mistake only after the count has come
round. -/
theorem Runs.reliable {rules : Rules} {allowed : Bool → Table → Move → Prop} {s₀ s : Situated σ}
    (hnew : s₀.table.IsNew rules) (hrun : Runs allowed false s₀ s) (hlt : s.table.writes < UInt64.size) :
    s.table.Reliable := by
  have hpath : Path (fun _ => True) s₀.table s.table :=
    hrun.path trivial (fun _ _ m _ => .of_forall (fun _ => trivial) m) hnew.sound
  have hcoherent : s₀.table.Coherent := by
    intro k
    rw [hnew.handle_eq]
    exact .of_row_eq_none rfl
  exact ⟨hpath.sound hnew.sound, hpath.coherent hnew.sound hlt hcoherent, hlt, hrun.opened hnew⟩

/-- At any moment, calls of the store may begin to fail. -/
theorem Runs.withOutages {allowed : Bool → Table → Move → Prop} {nested : Bool} {s₀ s : Situated σ}
    (hrun : Runs allowed nested s₀ s) (outages : Store.Outages) :
    Runs allowed nested s₀ (s.withOutages outages) :=
  .drift hrun (s.table.drifts_withOutages outages)

end SymbolTable
