import SymbolTable.Proofs.Outcome
import SymbolTable.Proofs.Sharing

/-!
# Derived symbols that are stored

A derived symbol becomes a stored one by being renamed. Its handle stays the same, but everything by
which the symbol is known changes: it gets an id, a row and a new key, it moves to another place in
the pool and is noted under another key, and it is designated where it was primary for want of
another symbol. What it was before it is afterwards (`Undisturbed.promotions_preserve`): the handle
is the one that is found, and the symbol is primary and has the references that it had, though for
other reasons.

The row is the only change to the store (`Table.Promotes`), so every fact about the symbol is read
off the table before it, the fresh row, and that the table afterwards is in order as any other
(`Undisturbed.settled`).
-/

namespace SymbolTable

open SymbolTable.Action
open Table (upkeep)

variable {σ : Type} {t t₁ t' : Table} {notify : Listener σ} {h : HandleId} {a : Address} {r : Row} {x : Reference}

/-! ## What is told -/

/-- The events are told, and nothing else happens. -/
structure Table.Hears (t : Table) (es : List Event) (t' : Table) : Prop where
  still : ({ t with log := t.log ++ es } : Table).Still t'
  references : t'.references = t.references

namespace Table.Hears

variable {es es' : List Event}

/-- If nothing is told, nothing happens. -/
theorem nothing (t : Table) : t.Hears [] t where
  still := ⟨⟨rfl, rfl, rfl, rfl, rfl, rfl⟩, rfl, rfl, (List.append_nil _).symm⟩
  references := rfl

/-- What is told in two stretches is told in the order of the two. Nothing else happens in either,
so the listener hears the same as if it had been one stretch. -/
theorem trans (h : t.Hears es t₁) (h' : t₁.Hears es' t') : t.Hears (es ++ es') t' where
  still := by
    refine ⟨⟨?_, ?_, ?_, ?_, ?_, ?_⟩, h'.still.facts.trans h.still.facts,
      h'.still.journal.trans h.still.journal, ?_⟩
    · exact h'.still.beside.store.trans h.still.beside.store
    · exact h'.still.beside.handles.trans h.still.beside.handles
    · exact h'.still.beside.pool.trans h.still.beside.pool
    · exact h'.still.beside.settings.trans h.still.beside.settings
    · exact h'.still.beside.rules.trans h.still.beside.rules
    · exact h'.still.beside.closed.trans h.still.beside.closed
    · rw [h'.still.log, h.still.log, List.append_assoc]
  references := h'.references.trans h.references

end Table.Hears

/-- What is told of a derived symbol that was stored in a scope: that it was added, that it lies in
the scope unless that is the global one, and that it is shown under another name if it is. -/
def Event.ofPromotion (id : SymbolId) (a : Address) (scope : Scope) (old new : String) : List Event :=
  ⟨.stored id, a, .added⟩ ::
    ((if scope.isGlobal then [] else [⟨.stored id, a, .scopeChanged .global scope⟩]) ++
      if new = old then [] else [⟨.stored id, a, .renamed old new⟩])

/-- A listener that only records is no disturbance. It leaves everything as it is but the log. -/
theorem Listener.Records.near (hn : notify.Records) (e : Event) (s : Situated σ) :
    s.table.Near (notify e s).table := by
  have hstill := hn e s
  exact ⟨⟨hstill.beside.store, hstill.beside.handles, hstill.beside.pool, hstill.beside.settings,
    hstill.beside.rules, hstill.beside.closed⟩, hstill.facts⟩

namespace Action

section
variable (hn : notify.Records) (hspares : notify.SparesReferences)

include hn hspares

/-- A listener that only records hears the one event. What it hears is what is logged, with the
references as they are. -/
theorem answers_emit_hears (t : Table) (key : Key) (a : Address) (c : Change) :
    Answers t (emit notify key a c) fun _ t' => t.Hears [⟨key, a, c⟩] t' := by
  refine Ends.emit ?_
  rintro s rfl
  exact ⟨(), rfl, hn _ s, hspares _ s⟩

/-- Of a symbol that was stored it is told that it was added, and then of its scope and of its name
if these are others than before. -/
theorem answers_tellPromotion (t : Table) (id : SymbolId) (a : Address) (scope : Scope) (old new : String) :
    Answers t (do
        emit notify (.stored id) a .added
        if !scope.isGlobal then
          emit notify (.stored id) a (.scopeChanged .global scope)
        if new ≠ old then
          emit notify (.stored id) a (.renamed old new)) fun _ t' =>
      t.Hears (Event.ofPromotion id a scope old new) t' := by
  refine (answers_emit_hears hn hspares t _ _ _).bind fun _ t₁ h₁ => ?_
  have hname (t₂ : Table) {es : List Event} (h₂ : t₁.Hears es t₂) :
      Answers t₂ (if new ≠ old then emit notify (.stored id) a (.renamed old new) else pure ()) fun _ t' =>
        t.Hears ([⟨.stored id, a, .added⟩] ++ (es ++
          if new = old then [] else [⟨.stored id, a, .renamed old new⟩])) t' := by
    by_cases heq : new = old
    · rw [if_neg (not_not.2 heq), if_pos heq]
      exact .pure (h₁.trans (h₂.trans (.nothing t₂)))
    · rw [if_pos heq, if_neg heq]
      exact (answers_emit_hears hn hspares t₂ _ _ _).imp fun _ _ h₃ => h₁.trans (h₂.trans h₃)
  cases hscope : scope.isGlobal with
  | true =>
    rw [Event.ofPromotion, hscope]
    exact hname t₁ (.nothing t₁)
  | false =>
    rw [Event.ofPromotion, hscope]
    exact (answers_emit_hears hn hspares t₁ _ _ _).bind fun _ t₂ h₂ => hname t₂ h₂

end

end Action

/-! ## The row -/

/-- A derived symbol was given a row in a scope. It is designated if it may be and no other symbol
is, and what was told follows from the name that it shows then. -/
structure Table.Promotes (t : Table) (h : HandleId) (scope : Scope) (old : String) (row : Row) (t' : Table) :
    Prop where
  exists_stores : ∃ b, t.Stores row b ∧ t'.store = t.store.withBackend b
  address : row.address = (t.handle h).address
  parent : row.parent = scope
  handle : t'.handle h = (t.handle h).promoted row t'.store.modificationCount
  primaryAt : (t.rules.capabilities (t.handle h).kind).primary = true →
    t.facts.primaryAt (t.handle h).address = none → t'.facts.primaryAt (t.handle h).address = some row.id
  references : t'.references = t.references
  log : t'.log = t.log ++
    Event.ofPromotion row.id (t.handle h).address scope old (t'.shownFor (t'.handle h))

namespace Action

/-- That a symbol was given a row is noted and told. The name is that which the row shows now. The
entries of the derived symbol were given to the id before, which is no part of this. -/
theorem answers_announcePromotion (hn : notify.Records) (hspares : notify.SparesReferences)
    (hb : t.store.backend.Sound) (hworks : t.store.Works) (h : HandleId) (id : SymbolId) (a : Address)
    (scope : Scope) (old : String) :
    Answers t (do
        let name ← nameOf h
        change fun t => { t with journal := t.journal.record ⟨a, .stored id, .added, name⟩ }
        emit notify (.stored id) a .added
        if !scope.isGlobal then
          emit notify (.stored id) a (.scopeChanged .global scope)
        if name ≠ old then
          emit notify (.stored id) a (.renamed old name)) fun _ t' =>
      t.Near t' ∧ t'.references = t.references ∧
        t'.log = t.log ++ Event.ofPromotion id a scope old (t'.shownFor (t'.handle h)) := by
  refine (answers_nameOf hb hworks h).bind ?_
  rintro name t ⟨rfl, rfl⟩
  refine Ends.change_bind ((answers_tellPromotion hn hspares _ id a scope old _).imp fun _ t' hears => ?_)
  have hnoted := hears.still.beside
  have hbeside : t.Beside t' := ⟨hnoted.store, hnoted.handles, hnoted.pool, hnoted.settings, hnoted.rules,
    hnoted.closed⟩
  refine ⟨⟨hbeside, hears.still.facts⟩, hears.references, hears.still.log.trans ?_⟩
  rw [hbeside.handle, Table.shownFor_eq ⟨hbeside.rules, hbeside.settings, hbeside.closed⟩ hbeside.rows_eq]

/-- What becomes of a derived symbol that is stored: it has a row, and so much is told. The row
comes under an id that was drawn for it, the handle has it as its copy, and whether it is designated
depends on its kind and on who is designated already. -/
theorem ends_promote_promotes (hn : notify.Records) (hspares : notify.SparesReferences)
    (hs : t.Sound) (hworks : t.store.Works) (hlive : (t.handle h).deleted = false) {plan : Rename}
    (hfree : plan.provenance ≠ .default →
      t.NameFree (t.handle h).address plan.name plan.scope (t.handle h).kind.tag none) :
    Ends t (promote notify h plan) fun answer t' => answer = .ok () →
      ∃ row, t.Promotes h plan.scope plan.oldName row t' := by
  refine .look_bind (.drawRow hs.backend (fun id b hdraw hputs => ?_) (fun _ => nofun) fun _ => nofun)
  generalize hfresh : Row.fresh id (t.handle h).kind (t.handle h).address plan.name plan.scope
    plan.provenance = row at hputs ⊢
  have hstores : t.Stores row b := by
    subst hfresh
    exact ⟨hdraw, hputs, fun hnamed => hfree fun hdefault => hnamed ((Row.ofBits_rank_and _).trans hdefault)⟩
  obtain ⟨rfl, haddress, hparent⟩ :
      row.id = id ∧ row.address = (t.handle h).address ∧ row.parent = plan.scope := by
    subst hfresh
    exact ⟨rfl, rfl, rfl⟩
  have hhandle : ((t.withBackend b).embody h row).handle h =
      (t.handle h).promoted row (t.store.withBackend b).modificationCount :=
    Table.handle_updateHandle_self (t.withBackend b) (Table.lt_of_live hlive) (·.promoted row _)
  refine .change_bind (.change_bind ?_)
  have hbeside := Table.beside_claimPrimary ((t.withBackend b).embody h row) (t.handle h).address row.id
    (t.handle h).kind
  refine ((answers_announcePromotion (t := ((t.withBackend b).embody h row).claimPrimary _ _ _) hn hspares
    (hbeside.store ▸ hputs.sound) (hbeside.store ▸ hworks) h row.id _ plan.scope plan.oldName).ends ?_).imp
    fun _ _ hpromotes _ => hpromotes
  rintro _ t' ⟨⟨hbeside', hfacts⟩, hreferences, hlog⟩
  have hstore : t'.store = t.store.withBackend b := hbeside'.store.trans hbeside.store
  refine ⟨row, ⟨b, hstores, hstore⟩, haddress, hparent, ?_, fun hable hnone => ?_, ?_, ?_⟩
  · rw [hbeside'.handle, hbeside.handle, hhandle, hstore]
  · have hclaims : ((((t.withBackend b).embody h row).rules.capabilities (t.handle h).kind).primary &&
        (((t.withBackend b).embody h row).facts.primaryAt (t.handle h).address).isNone) = true := by
      rw [Bool.and_eq_true, Option.isNone_iff_eq_none]
      exact ⟨hable, hnone⟩
    rw [hfacts, Table.claimPrimary, if_pos hclaims]
    exact (Facts.primaryAt_setPrimary ..).trans (if_pos rfl)
  · rw [hreferences, Table.claimPrimary_eq]
    rfl
  · rw [hlog, Table.claimPrimary_eq]
    rfl

/-- A derived symbol that is not derived after a rename was stored by it. A rename that has nothing
to do leaves the symbol derived. Otherwise the plan was made at this table, so the old name in the
events is the one that was shown here. -/
theorem ends_rename_promotes (hn : notify.Records) (hspares : notify.SparesReferences)
    (hs : t.Sound) (hworks : t.store.Works) (hderived : (t.handle h).isDerived = true) (name : String)
    (scope : Scope) (p : Provenance) :
    Ends t (rename notify h name scope p) fun answer t' => answer = .ok () →
      (t'.handle h).isDerived = false → ∃ row, t.Promotes h scope (t.shownFor (t.handle h)) row t' := by
  obtain ⟨hrow, hlive⟩ := Handle.isDerived_iff.1 hderived
  refine .current hs h (fun _ => nofun) (fun _ _ _ => nofun) fun t hr => ?_
  obtain rfl := hr.eq_of_row_eq_none hrow
  refine Tells.ends_bind ((tells_planRename hs h name scope p).and
    (tells_planRename_changes hs hworks h name scope p)) (fun plan? hplan => ?_) fun _ => nofun
  cases plan? with
  | none =>
    refine .pure fun _ hstored => ?_
    cases hderived.symm.trans hstored
  | some plan =>
    obtain ⟨⟨hplanned, rfl⟩, hchanges⟩ := And.intro (hplan.1 plan rfl) (hplan.2 plan rfl)
    refine .look_bind ?_
    rw [if_pos hderived, ← hchanges.oldName]
    have hkey := ((hs.inOrder h).derived hlive hrow).1
    refine (ends_promote_promotes hn hspares hs hworks hlive fun hnamed => ?_).imp
      fun _ _ hpromotes hok _ => hpromotes hok
    have hfree := hplanned.free hnamed
    rwa [Handle.id?_of_derived hkey] at hfree

end Action

/-! ## What the symbol was and is -/

namespace Table.Promotes

variable {scope : Scope} {old : String} {row : Row} (hp : t.Promotes h scope old row t')

include hp

/-- The key of the handle is the new id. -/
theorem key : (t'.handle h).key = .stored row.id :=
  hp.handle ▸ rfl

/-- The row is new, and it is the only one that is. No row has been under the id, as it is the next
one to be drawn, and none is lost. -/
theorem mem_rows (hs : t.Sound) (he : t.Exact) (hlt : t'.drawn < UInt64.size - 1) :
    row.id.val.toNat = t.drawn + 1 ∧ (∀ r ∈ t.rows, r.id ≠ row.id) ∧
      ∀ r, r ∈ t'.rows ↔ r = row ∨ r ∈ t.rows := by
  obtain ⟨b, hstores, hstore⟩ := hp.exists_stores
  have hdrawn : b.drawn < UInt64.size - 1 := by
    rw [Table.drawn, hstore] at hlt
    exact hlt
  have hunused : ∀ r ∈ t.rows, r.id ≠ row.id := fun r hr => hstores.ne_id hs hdrawn (he.le_drawn r hr)
  refine ⟨(hstores.id_eq hs hdrawn).1, hunused, fun r => ?_⟩
  have hmem := hstores.mem_rows hs r
  rw [show t'.rows = b.rows from congrArg (·.backend.rows) hstore, hmem]
  exact or_congr_right ⟨fun h => h.1, fun h => ⟨h, hunused r h⟩⟩

/-- The handle serves for the new id. The handle was made that of the new row when the symbol was
stored. -/
theorem serves (hlive : (t.handle h).deleted = false) : t'.Serves h row.id := by
  refine ⟨⟨?_, .inr ?_⟩, hp.key⟩
  · rw [hp.handle]
    exact hlive
  · rw [hp.handle]
    rfl

/-- What belonged to a derived symbol belongs to it when it is designated under an id that owned
nothing. Before, all that led there and belonged to the primary symbol was its own. No reference
could have belonged to the id, which was not drawn then. -/
theorem share_eq (hderived : (t.handle h).isDerived = true) (hs : t.Sound)
    (howners : ∀ x ∈ t.references.into (t.handle h).address, x.owner ≠ .symbol row.id)
    (hprimary : t'.isPrimary h = true) : t'.share h = t.share h := by
  obtain ⟨hrow, hlive⟩ := Handle.isDerived_iff.1 hderived
  have hid : (t.handle h).id? = none := Handle.id?_of_derived ((hs.inOrder h).derived hlive hrow).1
  have hid' : (t'.handle h).id? = some row.id := Handle.id?_eq_some_iff.2 hp.key
  have haddress : (t'.handle h).address = (t.handle h).address := by
    rw [hp.handle]
    exact hp.address
  rw [Table.share, Table.share, haddress, hp.references]
  refine List.filter_congr fun x hx => ?_
  have hother := howners x hx
  rw [Table.handleOwns, Table.handleOwns, hprimary, hid', Table.isPrimary, hid, Table.owns, Table.owns]
  cases howner : x.owner with
  | primary => rfl
  | symbol i =>
    have hne : i ≠ row.id := fun heq => hother (heq ▸ howner)
    simp [hne]

/-- Alone at its address before and after, the symbol counts all that there is. Nobody else lies
there, so which of the references belong to it makes no difference to the count. -/
theorem counted_eq (hvacant : t.Vacant (t.handle h).address)
    (hmem : ∀ r, r ∈ t'.rows ↔ r = row ∨ r ∈ t.rows) : t'.counted h = t.counted h := by
  have haddress : (t'.handle h).address = (t.handle h).address := by
    rw [hp.handle]
    exact hp.address
  have halone : (t.rows.filter (·.address = (t.handle h).address)).all (some ·.id = (t.handle h).id?) =
      true := by
    rw [List.all_eq_true]
    intro r hr
    obtain ⟨hr, hra⟩ := List.mem_filter.1 hr
    exact absurd (of_decide_eq_true hra) (hvacant r hr)
  have halone' : (t'.rows.filter (·.address = (t.handle h).address)).all (some ·.id = (t'.handle h).id?) =
      true := by
    rw [List.all_eq_true]
    intro r hr
    obtain ⟨hr, hra⟩ := List.mem_filter.1 hr
    rcases (hmem r).1 hr with rfl | hr
    · exact decide_eq_true (Handle.id?_eq_some_iff.2 hp.key).symm
    · exact absurd (of_decide_eq_true hra) (hvacant r hr)
  rw [Table.counted, Table.counted, haddress, if_pos halone', if_pos halone, hp.references]

end Table.Promotes

/-- Where a row lies, no symbol is derived. The store is asked for the rows there and answers with
some, so the pool is not even looked at. -/
theorem Action.answers_derivedAt_of_occupied (hb : t.store.backend.Sound) (hworks : t.store.Works)
    (hoccupied : ¬ t.Vacant a) : Answers t (derivedAt a : Action σ _) fun found t' => found = none ∧ t' = t := by
  unfold derivedAt
  split
  · exact .pure ⟨rfl, rfl⟩
  · refine Ends.seq (.rowsAt hb (.ok ?_) fun _ hfails => absurd hfails hworks.not_mayFail)
    rw [Bool.eq_false_iff.2 (mt Table.isEmpty_rowsAt_iff.1 hoccupied)]
    exact Answers.pure ⟨rfl, rfl⟩

/-- A designated symbol whose handle is ready is found as the primary one. It is the handle that the
pool has for the id, so it is found as it is, and no new one is made. -/
theorem Action.answers_primaryAt_of_offers {id : SymbolId} (hprimary : t.facts.primaryAt a = some id)
    (hoffers : t.Offers h id) : Answers t (primaryAt a : Action σ _) fun found t' =>
      found = some h ∧ t' = t := by
  unfold primaryAt
  refine Answers.look_bind ?_
  rw [hprimary]
  refine (answers_lookup_of_offers hoffers).bind ?_
  rintro _ _ ⟨rfl, rfl⟩
  exact Answers.pure ⟨rfl, rfl⟩

/-- A derived symbol at an address was stored in a scope, with this row, and is what it was. -/
structure Situated.Persists (s : Situated σ) (a : Address) (h : HandleId) (scope : Scope) (row : Row)
    (s' : Situated σ) : Prop where
  key : (s'.table.handle h).key = .stored row.id
  /-- The id was never drawn before. -/
  fresh : row.id.val.toNat = s.table.drawn + 1
  unused : ∀ r ∈ s.table.rows, r.id ≠ row.id
  /-- One row is new, and the others stay as they are. -/
  mem_rows : ∀ r, r ∈ s'.table.rows ↔ r = row ∨ r ∈ s.table.rows
  address : row.address = a
  parent : row.parent = scope
  /-- Its handle is the one that is found under the id, and no symbol is derived from the address
  any more. -/
  found : s'.Replies (lookup row.id) (some h)
  underived : s'.Replies (derivedAt a) none
  primary : s'.AnswersPrimary h true
  found_primary : s'.Replies (primaryAt a) (some h)
  /-- It lists the references that it listed before, and counts as many. -/
  references : ∃ found n, s.Tallies h found n ∧ s'.Tallies h found n
  /-- It is told that it was added, that it lies in the scope, and that it is shown under another
  name. -/
  told : ∃ old new, s.Replies (currentName h) old ∧ s'.Replies (currentName h) new ∧
    s'.table.log = s.table.log ++ Event.ofPromotion row.id a scope old new

/-- That the symbol persists is read off the tables before and after, which are in order. Each part
of it is a lemma of its own, on the id, the rows, the lookup, the designation, the share and the
events. -/
theorem Situated.persists_of_promotes {s s' : Situated σ} {scope : Scope} {row : Row}
    (hp : s.table.Promotes h scope (s.table.shownFor (s.table.handle h)) row s'.table)
    (ht : s.table.Settled) (ht' : s'.table.Settled) (hlt : s'.table.drawn < UInt64.size - 1)
    (hable : (s.table.rules.capabilities (s.table.handle h).kind).primary = true)
    (howners : ∀ x ∈ s.table.references.into (s.table.handle h).address, ∀ id, x.owner = .symbol id →
      id.val.toNat ≤ s.table.drawn)
    (hderived : (s.table.handle h).isDerived = true) (hvacant : s.table.Vacant (s.table.handle h).address) :
    s.Persists (s.table.handle h).address h scope row s' := by
  obtain ⟨hrow, hlive⟩ := Handle.isDerived_iff.1 hderived
  obtain ⟨hfresh, hunused, hmem⟩ := hp.mem_rows ht.sound ht.exact hlt
  have hready : s.table.IsReady h := ⟨hlive, .inl hrow⟩
  have hserves := hp.serves hlive
  have hoffers : s'.table.Offers h row.id :=
    ⟨hserves, (ht'.exact.pooled _ h).2 ⟨hserves.ready.live, hserves.key⟩⟩
  have hstored : row ∈ s'.table.rows := (hmem row).2 (.inl rfl)
  have hget : s'.table.row? row.id = some row := Table.row?_id ht'.sound.backend hstored
  -- nothing was designated before, since no row lay there
  have hdesignated :=
    hp.primaryAt hable (ht.regular.designated.primaryAt_of_vacant hvacant)
  have hprimary : s'.table.isPrimary h = true := by
    rw [isPrimary_eq ht'.exact hserves ht'.sound ht'.regular.designated hget, hp.address, hdesignated]
    exact decide_eq_true rfl
  have hshare : s'.table.share h = s.table.share h := by
    refine hp.share_eq hderived ht.sound (fun x hx howner => ?_) hprimary
    have hle := howners x hx _ howner
    omega
  refine ⟨hp.key, hfresh, hunused, hmem, hp.address, hp.parent, (answers_lookup_of_offers hoffers).replies,
    ?_, ?_, (answers_primaryAt_of_offers hdesignated hoffers).replies, ⟨_, _, s.tallies ht hready, ?_⟩,
    _, _, ?_, ?_, hp.log⟩
  · refine (answers_derivedAt_of_occupied ht'.sound.backend ht'.regular.works fun hnone => ?_).replies
    exact hnone row hstored hp.address
  · rw [← hprimary]
    exact Situated.answersPrimary_of_isReady ht'.opened hserves.ready
  · rw [← hshare, ← hp.counted_eq hvacant hmem]
    exact s'.tallies ht' hserves.ready
  · exact (answers_current_of_isReady ht.opened hready
      (answers_nameOf ht.sound.backend ht.regular.works h)).replies
  · exact (answers_current_of_isReady ht'.opened hserves.ready
      (answers_nameOf ht'.sound.backend ht'.regular.works h)).replies

/-- A rename is a move, so a run goes on with it undisturbed. The draws only go up, which is used to
see that the id is a fresh one. -/
theorem Undisturbed.renamed {s₀ s s' : Situated σ} (hrun : Undisturbed s₀ s) (hs : s.table.Sound)
    (hn : notify.Records) {name : String} {scope : Scope} {p : Provenance}
    (hrename : (rename notify h name scope p).run s = (.ok (), s')) :
    Undisturbed s₀ s' ∧ s.table.drawn ≤ s'.table.drawn := by
  have hmove : ((Move.edit h (.rename name scope p)).action notify).run s = (.ok (), s') := by
    show ((fun _ => ()) <$> (fun _ => Reply.done) <$> rename notify h name scope p).run s = _
    simp only [map_eq_pure_bind, run_bind, hrename, run_pure]
  have hmoved := hrun.move (m := .edit h (.rename name scope p)) rfl hn.near
  have hrel := Move.ends_regular hs (m := .edit h (.rename name scope p)) rfl hn.near s rfl
  rw [hmove] at hmoved hrel
  exact ⟨hmoved, hrel.path.drawn_le hs⟩

/-- **Promotion.** Whatever was done to a table with the usual rules since it was opened empty: if a
derived symbol at an address without rows is renamed, and is stored then, it has a fresh id, and its
row is the only one that is new. Its handle is found for the id, no symbol is derived from the
address, and it is primary there. It lists the references that it listed before, in the same order,
and counts as many. It is told first that it was added, then that it lies in a scope unless that is
the global one, and then that it is shown under another name if it is. The store works, listeners do
not act on the table, rows and designations are changed through moves alone, derived symbols are not
relocated, there are ids left, and references belong to none of these. -/
theorem Undisturbed.promotions_preserve {s₀ s s' : Situated σ} (hnew : s₀.table.IsNew .standard)
    (hworks : s₀.table.store.Works) (hrun : Undisturbed s₀ s) (hlt : s'.table.drawn < UInt64.size - 1)
    (hn : notify.Records) (hspares : notify.SparesReferences)
    (howners : ∀ x ∈ s.table.references.into a, ∀ id, x.owner = .symbol id → id.val.toNat ≤ s.table.drawn)
    (hderived : (s.table.handle h).isDerived = true) (haddress : (s.table.handle h).address = a)
    (hvacant : s.table.Vacant a) {name : String} {scope : Scope} {p : Provenance}
    (hrename : (rename notify h name scope p).run s = (.ok (), s'))
    (hstored : (s'.table.handle h).isDerived = false) :
    ∃ row, s.Persists a h scope row s' := by
  subst haddress
  obtain ⟨hrun', hle⟩ := hrun.renamed (hrun.standing hnew).sound hn hrename
  have ht := hrun.settled hnew hworks (Nat.lt_of_le_of_lt hle hlt)
  have ht' := hrun'.settled hnew hworks hlt
  obtain ⟨row, hp⟩ : ∃ row, s.table.Promotes h scope (s.table.shownFor (s.table.handle h)) row s'.table := by
    have hpromotes := ends_rename_promotes hn hspares ht.sound ht.regular.works hderived name scope p s rfl
    rw [hrename] at hpromotes
    exact hpromotes rfl hstored
  -- a derived symbol is a label, which may be primary under the usual rules
  have hable : (s.table.rules.capabilities (s.table.handle h).kind).primary = true := by
    obtain ⟨hrow, hlive⟩ := Handle.isDerived_iff.1 hderived
    rw [((ht.sound.inOrder h).derived hlive hrow).2, (hrun.rel hnew.sound).path.sameFrame.rules,
      hnew.rules_eq]
    rfl
  exact ⟨row, Situated.persists_of_promotes hp ht ht' hlt hable howners hderived hvacant⟩

/-- A namespace is created, and a derived symbol to which three references lead is given a name in
it. It keeps the two that belong to the primary symbol, and counts all three. -/
theorem Undisturbed.promotions_preserve_of_scoped :
    let s₀ : Situated Unit := ⟨.empty default .standard, (), 0⟩
    let go (s : Situated Unit) (m : Move) := ((m.action Listener.recorder).run s).2
    let s₁ := [.create ⟨"n", .namespaceScope, .ram 0, .global, .userDefined, 0, 0, none⟩,
      .search (.derivedAt (.ram 16))].foldl go s₀
    let owners : List Owner := [.primary, .symbol ⟨1, by decide⟩, .primary]
    let references := owners.foldl (fun x owner => x.add ⟨.ram 64, .ram 16, .jump, owner⟩) .empty
    let s : Situated Unit := { s₁ with table := { s₁.table with references := references } }
    let scope : Scope := .of ⟨1, by decide⟩
    let renamed := (rename Listener.recorder 1 "f" scope .userDefined).run s
    let s' := renamed.2
    s₀.table.IsNew .standard ∧ s₀.table.store.Works ∧ Undisturbed s₀ s ∧
      s'.table.drawn < UInt64.size - 1 ∧ (Listener.recorder : Listener Unit).Records ∧
      (Listener.recorder : Listener Unit).SparesReferences ∧
      (∀ x ∈ s.table.references.into (.ram 16), ∀ id, x.owner = .symbol id → id.val.toNat ≤ s.table.drawn) ∧
      (s.table.handle 1).isDerived = true ∧ (s.table.handle 1).address = .ram 16 ∧ s.table.Vacant (.ram 16) ∧
      renamed.1 = .ok () ∧ (s'.table.handle 1).isDerived = false ∧
      ((referenceCount 1).run s').1 = .ok 3 ∧ ∃ row, s.Persists (.ram 16) 1 scope row s' := by
  intro s₀ go s₁ owners references s scope renamed s'
  have hnew : s₀.table.IsNew .standard := .memory _ _ _
  have hworks : s₀.table.store.Works := fun _ _ _ => rfl
  have hrecords : (Listener.recorder : Listener Unit).Records := Listener.records_recorder
  have hspares : (Listener.recorder : Listener Unit).SparesReferences := fun _ _ => rfl
  have hrun₁ : Undisturbed s₀ s₁ := .move (.move .refl rfl hrecords.near) rfl hrecords.near
  have hnear (x : Situated Unit) : x.table.Near { x.table with references := references } :=
    ⟨⟨rfl, rfl, rfl, rfl, rfl, rfl⟩, rfl⟩
  have hrun : Undisturbed s₀ s := .near hrun₁ (hnear s₁)
  have hlt : s'.table.drawn < UInt64.size - 1 := by decide
  have howners : ∀ x ∈ s.table.references.into (.ram 16), ∀ id, x.owner = .symbol id →
      id.val.toNat ≤ s.table.drawn := by
    have hone : ∀ x ∈ s.table.references.into (.ram 16), x.owner = .primary ∨ x.owner = .symbol ⟨1, by decide⟩ :=
      by decide
    intro x hx id howner
    rcases hone x hx with hx | hx <;> cases hx.symm.trans howner
    decide
  have hderived : (s.table.handle 1).isDerived = true := by decide
  have haddress : (s.table.handle 1).address = .ram 16 := by decide
  have hvacant : s.table.Vacant (.ram 16) := (by decide : ∀ r ∈ s.table.rows, r.address ≠ .ram 16)
  have hok : renamed.1 = .ok () := by decide
  have hrename : (rename Listener.recorder 1 "f" scope .userDefined).run s = (.ok (), s') := by rw [← hok]
  have hstored : (s'.table.handle 1).isDerived = false := by decide
  exact ⟨hnew, hworks, hrun, hlt, hrecords, hspares, howners, hderived, haddress, hvacant, hok, hstored,
    by decide +kernel, Undisturbed.promotions_preserve hnew hworks hrun hlt hrecords hspares howners hderived
      haddress hvacant hrename hstored⟩

end SymbolTable
