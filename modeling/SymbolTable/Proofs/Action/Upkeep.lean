import SymbolTable.Action.Answer
import SymbolTable.Proofs.Action.Course
import SymbolTable.Proofs.Action.Naming

/-!
# Refreshing and finding symbols

What refreshes handles, finds them or asks them something follows every course, since it keeps up
the handles and does nothing else. Of a refresh everything that can happen is listed (`Refreshed`).
-/

namespace SymbolTable

open Table (Step Path upkeep)

variable {σ α : Type} {t t' : Table} {c : Course}

/-! ## Refreshing -/

namespace Table

/-- All that can become of a handle that is refreshed. -/
inductive Refreshed (t : Table) (h : HandleId) : Except Fault Unit → Table → Prop where
  /-- It is ready as it is. -/
  | ready (hready : t.IsReady h) : Refreshed t h (.ok ()) t
  | reloaded {r row : Row} (hlive : (t.handle h).deleted = false) (hrow : (t.handle h).row = some r)
      (hstale : (t.handle h).seenAt ≠ t.store.modificationCount) (hget : t.row? r.id = some row)
      (htag : row.tag = r.tag) :
      Refreshed t h (.ok ()) (t.updateHandle h (·.refreshed row t.store.modificationCount))
  /-- Its row is gone, or has become that of another kind of symbol. -/
  | vanished {r : Row} (hlive : (t.handle h).deleted = false) (hrow : (t.handle h).row = some r)
      (hstale : (t.handle h).seenAt ≠ t.store.modificationCount)
      (hgone : ∀ row, t.row? r.id = some row → row.tag ≠ r.tag) :
      Refreshed t h (.error (.state (.vanished (t.handle h).key))) (t.abandon h (t.handle h).key)
  | deleted (hdeleted : (t.handle h).deleted = true) :
      Refreshed t h (.error (.state (.deleted (t.handle h).key))) t
  /-- The store does not answer. -/
  | failed {id : SymbolId} (fault : StoreFault) (hfails : t.store.MayFail .get (some id) fault) :
      Refreshed t h (.error (.store fault)) t

namespace Refreshed

variable {h : HandleId} {answer : Except Fault Unit}

/-- All that can become of a handle that is refreshed keeps the handles up and does nothing else,
the case that it is marked deleted included. -/
theorem upkept (hr : t.Refreshed h answer t') : Course.upkept.rel t t' := by
  cases hr with
  | ready | deleted | failed => exact .refl
  | reloaded hlive hrow hstale hget htag =>
    have hstep : Step upkeep t _ := .refresh h hlive hrow hstale hget htag
    exact .single ⟨.of_length_eq hstep rfl (length_updateHandle ..), rfl, rfl, rfl, .inl rfl⟩
  | vanished hlive hrow hstale hgone =>
    have hstep : Step upkeep t _ := .vanish h hlive hrow hstale hgone
    exact .single ⟨.of_length_eq hstep rfl (length_updateHandle ..), rfl, rfl, rfl, .inl rfl⟩

/-- So a refresh goes along the steps of upkeep, which every course takes. -/
theorem path (hr : t.Refreshed h answer t') : Path upkeep t t' :=
  Course.path_of_upkept hr.upkept

/-- On every course a handle may be refreshed. The soundness is needed since a course is only asked
about sound tables. -/
theorem rel (hr : t.Refreshed h answer t') (ht : t.Sound) : c.rel t t' :=
  .of_upkept ht hr.upkept

/-- A handle that was refreshed is ready. The two ways to end without a refusal are that its copy
was current, and that it was replaced just now. -/
theorem isReady (hr : t.Refreshed h (.ok ()) t') : t'.IsReady h := by
  cases hr with
  | ready hready => exact hready
  | @reloaded r row hlive =>
    have heq := handle_updateHandle_self t (lt_of_live hlive)
      (·.refreshed row t.store.modificationCount)
    constructor
    · rw [heq]
      exact hlive
    · right
      rw [heq]
      rfl

/-- A handle that was refreshed was not marked deleted. -/
theorem live (hr : t.Refreshed h (.ok ()) t') : (t.handle h).deleted = false := by
  cases hr with
  | ready hready => exact hready.live
  | reloaded hlive => exact hlive

/-- There is nothing to refresh in a handle without a row. Only the copy of a row can be out of
date, so such a handle is ready as it is. -/
theorem eq_of_row_eq_none (hr : t.Refreshed h (.ok ()) t') (hrow : (t.handle h).row = none) :
    t' = t := by
  cases hr with
  | ready => rfl
  | reloaded _ hrow' =>
    rw [hrow] at hrow'
    cases hrow'

/-- A handle that turns out to be live stays in the pool as it is. Only one that turns out to be
gone is taken from it. -/
theorem pool_eq (hr : t.Refreshed h (.ok ()) t') : t'.pool = t.pool := by
  cases hr with
  | ready | reloaded => rfl

/-- A refresh does not give a stored symbol back to its address. Unless it is refused, it replaces
the copy of a row by a row, so there is one before and after. -/
theorem isDerived_eq (hr : t.Refreshed h (.ok ()) t') :
    (t'.handle h).isDerived = (t.handle h).isDerived := by
  cases hr with
  | ready => rfl
  | reloaded hlive hrow =>
    rw [handle_updateHandle_self t (lt_of_live hlive), Handle.isDerived, Handle.isDerived, hrow]
    rfl

/-- A refresh fetches the row anew under the key of the handle, and the key stays. -/
theorem key_eq (hr : t.Refreshed h (.ok ()) t') : (t'.handle h).key = (t.handle h).key := by
  cases hr with
  | ready => rfl
  | reloaded => rw [map_updateHandle Handle.key rfl]

/-- The kind of a symbol is told by its handle and not by its row, so it survives a refresh whatever
was stored meanwhile. -/
theorem kind_eq (hr : t.Refreshed h (.ok ()) t') : (t'.handle h).kind = (t.handle h).kind := by
  cases hr with
  | ready => rfl
  | reloaded => rw [map_updateHandle Handle.kind rfl]

end Refreshed

end Table

namespace Action

/-- A refresh ends in one of the cases of `Refreshed`. Most of what is known of refreshes goes back
to this. -/
theorem ends_refresh (ht : t.Sound) (h : HandleId) :
    Ends t (refresh h : Action σ Unit) (t.Refreshed h) := by
  unfold refresh
  refine .look_bind (.look_bind ?_)
  split
  · rename_i hdeleted
    exact .fail (.deleted hdeleted)
  · rename_i hlive
    rw [Bool.not_eq_true] at hlive
    split
    · rename_i hrow
      exact .pure (.ready ⟨hlive, .inl hrow⟩)
    · rename_i r hrow
      split
      · rename_i hseen
        exact .pure (.ready ⟨hlive, .inr hseen⟩)
      · rename_i hstale
        have hvanish (hgone : ∀ row, t.row? r.id = some row → row.tag ≠ r.tag) :
            Ends t (vanish h (t.handle h).key : Action σ Unit) (t.Refreshed h) :=
          .change_bind (.fail (.vanished hlive hrow hstale hgone))
        refine .seq (.getRow ht.backend (.ok ?_) .failed)
        split
        · rename_i row hget
          split
          · rename_i htag
            exact .change (.reloaded hlive hrow hstale hget htag)
          · rename_i htag
            refine hvanish ?_
            intro row' hrow'
            rw [hget] at hrow'
            cases hrow'
            exact htag
        · rename_i hget
          refine hvanish ?_
          intro row' hrow'
          rw [hget] at hrow'
          cases hrow'

/-- A refresh follows every course. -/
theorem follows_refresh (h : HandleId) : Follows c (refresh h : Action σ Unit) := by
  intro t ht
  exact (ends_refresh ht h).imp fun _ _ hr => hr.rel ht

/-- What is done to the symbol of a handle starts from a handle that was refreshed. It may be
refused because the table is closed, or by the refresh. This lemma is where almost every account of
an operation begins. -/
theorem Ends.current {a : Action σ α} {Q : Except Fault α → Table → Prop} (ht : t.Sound) (h : HandleId)
    (hclosed : ∀ fault, Q (.error fault) t)
    (hrefused : ∀ fault t', t.Refreshed h (.error fault) t' → Q (.error fault) t')
    (ha : ∀ t', t.Refreshed h (.ok ()) t' → Ends t' a Q) : Ends t (current h a) Q :=
  (Reads.ask _).ends_bind
    (fun _ => .bind (ends_refresh ht h) (fun _ t' hr => ha t' hr) hrefused) hclosed

/-- What is done to the symbol of a handle need only be looked at where the handle is ready, for
there it starts. If the refresh fails instead, the course ends. -/
theorem follows_current {a : Action σ α} (h : HandleId)
    (ha : ∀ t : Table, t.Sound → t.IsReady h → Ends t a fun _ t' => c.rel t t') :
    Follows c (current h a) := by
  intro t ht
  refine .current ht h (fun _ => .refl) (fun _ _ hr => hr.rel ht) fun t' hr => ?_
  refine (ha t' (hr.path.sound ht) hr.isReady).imp fun _ _ hrel => ?_
  exact (hr.rel ht).trans hrel

/-- In particular, an action that follows a course from anywhere follows it from there. -/
theorem follows_current_of_follows {a : Action σ α} (h : HandleId) (ha : Follows c a) :
    Follows c (current h a) :=
  follows_current h fun t ht _ => ha t ht

/-- What is done to the symbol of a handle is done once the handle is current. -/
theorem current_eq_bind (a : Action σ α) : current h a = current h (pure ()) >>= fun _ => a := by
  simp [current, bind_assoc]

/-- What is done to a symbol that says it is there is done from where its handle is current. The
answer says that the refresh succeeded, and everything that is asked afterwards starts with the same
refresh. -/
theorem exists_run_current {s : Situated σ} {h : HandleId} (hvalid : ((isValid h).run s).1 = .ok true) :
    ∃ s' : Situated σ, (current h (pure ()) : Action σ Unit).run s = (.ok (), s') ∧
      ∀ {α : Type} (a : Action σ α), (current h a).run s = a.run s' := by
  cases hrun : (current h (pure ()) : Action σ Unit).run s with
  | mk answer s' =>
    cases answer with
    | error fault => simp [isValid, hrun] at hvalid
    | ok =>
      refine ⟨s', rfl, fun a => ?_⟩
      rw [current_eq_bind, run_bind, hrun]

/-! ## Finding -/

/-- A handle is asked of the pool and made anew if it is not there. The four cases are what a caller
has to go through: it is in the pool, there is nothing to make one of, a new one is put under the
key, or making one fails. -/
theorem ends_pooled {key : Key} {make : Action σ (Option Handle)} {P : Option Handle → Prop}
    {Q : Except Fault (Option HandleId) → Table → Prop} (hmake : Tells t make P)
    (hpooled : ∀ h, t.pool.get? key = some h → Q (.ok (some h)) t)
    (hnone : t.pool.get? key = none → P none → Q (.ok none) t)
    (hnew : ∀ s, t.pool.get? key = none → P (some s) →
      Q (.ok (some t.handles.length)) (t.adopt key s))
    (herror : ∀ fault, Q (.error fault) t) : Ends t (pooled key make) Q := by
  refine .look_bind ?_
  split
  · rename_i h hh
    exact .pure (hpooled h hh)
  · rename_i hfree
    refine hmake.ends_bind (fun s? hs => ?_) herror
    split
    · exact .pure (hnone hfree hs)
    · rename_i s
      exact .look_bind (.change_bind (.pure (hnew s hfree hs)))

/-- What a new handle for an id is. It is made of the row that is stored at that moment, with the
count of the store at that moment, and it is made only if the row stands for a kind. -/
theorem tells_handleOfRow (ht : t.Sound) (id : SymbolId) :
    Tells t (handleOfRow id : Action σ _) fun s? =>
      match s? with
      | none => t.row? id = none
      | some s => ∃ r, t.row? id = some r ∧ Handle.ofRow r t.store.modificationCount = .ok s := by
  refine .look_bind ((tells_getRow ht id).bind fun row? hrow => ?_)
  split
  · exact .pure hrow.symm
  · rename_i r
    cases hs : Handle.ofRow r t.store.modificationCount with
    | error fault => exact .fail
    | ok s => exact .pure ⟨r, hrow.symm, hs⟩

/-- To find the handle of an id, or to make it, follows every course. The handle that is made shows
the row that is stored, so it may be adopted. -/
theorem follows_pooled_handleOfRow (id : SymbolId) :
    Follows c (pooled (.stored id) (handleOfRow id) : Action σ _) := by
  intro t ht
  refine ends_pooled (tells_handleOfRow ht id) (fun _ _ => .refl) (fun _ _ => .refl) ?_
    fun _ => .refl
  rintro s hfree ⟨r, hrow, hs⟩
  obtain ⟨k, -, rfl⟩ := Handle.eq_of_ofRow hs
  have hid : r.id = id := Table.id_of_row? hrow
  subst hid
  exact c.keepsUp ht
    ⟨.of_adopt (.adopt _ hfree (.inl ⟨r.id, r, hrow, hs⟩)) rfl rfl nofun, rfl, rfl, rfl, .inl rfl⟩

/-- To look a symbol up by its id follows every course. A handle that is found is refreshed. If it
turns out to be gone, it has left the pool, and a new one is made if there is a row. -/
theorem follows_lookup (id : SymbolId) : Follows c (lookup id : Action σ _) := by
  refine .bind (.look _) fun h? => ?_
  split
  · exact follows_pooled_handleOfRow id
  · refine .bind (.attempt (follows_refresh _)) fun answer => ?_
    split
    · exact .pure _
    · exact follows_pooled_handleOfRow id
    · exact .fail _

/-- To look up one id after the other follows every course, and so does every listing that ends in
this. -/
theorem follows_lookupEach (ids : List SymbolId) : Follows c (lookupEach ids : Action σ _) :=
  .bind (.mapM follows_lookup ids) fun _ => .pure _

/-- The symbol derived from an address is asked for where no row lies, so it may be adopted if the
rules show one there. -/
theorem follows_derivedAt (a : Address) : Follows c (derivedAt a : Action σ _) := by
  unfold derivedAt
  split
  · exact .pure _
  · rename_i hmemory
    rw [Bool.not_eq_true, Bool.not_eq_false'] at hmemory
    intro t ht
    refine (tells_rowsAt ht a).ends_bind (fun rows hrows => ?_) fun _ => .refl
    split
    · exact .pure .refl
    · rename_i hempty
      have hvacant : ∀ r ∈ t.rows, r.address ≠ a := by
        simpa [hrows, List.isEmpty_iff] using hempty
      refine ends_pooled (P := (· = some (Handle.derived a))) (.pure rfl) (fun _ _ => .refl)
        (fun _ _ => .refl) ?_ fun _ => .refl
      rintro s hfree ⟨⟩
      have hstep : Step upkeep t _ := .adopt (Handle.derived a) hfree (.inr ⟨a, rfl⟩)
      exact c.keepsUp ht ⟨.of_adopt hstep rfl rfl fun _ => ⟨hvacant, hmemory⟩, rfl, rfl, rfl, .inl rfl⟩

/-- To list the symbols at an address follows every course: stored ones are looked up, or else the
derived one is. -/
theorem follows_symbolsAt (a : Address) : Follows c (symbolsAt a : Action σ _) := by
  refine .bind (.of_reads (reads_rowsAt a)) fun rows => ?_
  split
  · refine .bind (.look _) fun n => ?_
    split
    · exact .pure _
    · exact .bind (follows_derivedAt a) fun _ => .pure _
  · exact .bind (.look _) fun _ => .bind (follows_lookupEach _) fun _ => .look _

/-- The members of a scope are read from the list that is kept, or the list is made anew first,
which is upkeep. -/
theorem follows_memberIds (scope : Scope) : Follows c (memberIds scope : Action σ _) := by
  intro t ht
  refine .look_bind (.look_bind ?_)
  split
  · exact .pure .refl
  · refine (tells_rowsIn ht scope).ends_bind (fun rows hrows => ?_) fun _ => .refl
    subst hrows
    exact .change_bind (.pure (c.keepsUp ht (t.tended_relisted scope)))

/-- To list the symbols in a scope follows every course. -/
theorem follows_symbolsIn (scope : Scope) : Follows c (symbolsIn scope : Action σ _) :=
  .bind (follows_memberIds scope) fun _ => follows_lookupEach _

/-- To list all symbols follows every course. -/
theorem follows_allSymbols : Follows c (allSymbols : Action σ _) :=
  .bind (.of_reads (.askStore _)) fun _ => follows_lookupEach _

/-- To ask for the primary symbol of an address follows every course, though it may have to make the
derived one. The designation is looked up first, and if nobody is designated there, the derived
symbol is asked for. -/
theorem follows_primaryAt (a : Address) : Follows c (primaryAt a : Action σ _) := by
  have hderived : Follows c (do
      if (← look (·.references.count a)) = 0 then return none
      else derivedAt a : Action σ _) := by
    refine .bind (.look _) fun n => ?_
    split
    · exact .pure _
    · exact follows_derivedAt a
  refine .bind (.look _) fun primary? => ?_
  split
  · refine .bind (follows_lookup _) fun designated => ?_
    cases designated with
    | some h => exact .pure _
    | none => exact hderived
  · exact hderived

/-! ## Asking -/

/-- To ask whether a symbol is there refreshes its handle, and that is all it does. -/
theorem follows_isValid (h : HandleId) : Follows c (isValid h : Action σ _) := by
  refine .bind (.attempt (follows_current_of_follows h (.pure _))) fun answer => ?_
  split <;> exact .pure _

/-- A symbol that says it is there is not marked deleted. So whatever is premised of symbols that
are there can be premised of their answers, which is all that a caller sees. -/
theorem ends_isValid (ht : t.Sound) (h : HandleId) :
    Ends t (isValid h : Action σ _) fun answer _ => answer = .ok true → (t.handle h).deleted = false := by
  have hcurrent : Ends t (current h (pure ()) : Action σ Unit) fun answer _ =>
      answer = .ok () → (t.handle h).deleted = false :=
    .current ht h (fun _ => nofun) (fun _ _ _ => nofun) fun _ hr => .pure fun _ => hr.live
  refine .attempt_bind hcurrent fun answer t' hlive => ?_
  split
  · exact .pure fun _ => hlive rfl
  · exact .pure nofun

/-- What is told of a handle is told once it is current. -/
theorem follows_telling (h : HandleId) (q : Handle → α) :
    Follows c (telling h q : Action σ α) :=
  follows_current_of_follows h (.look _)

/-- To ask for a name follows every course. -/
theorem follows_name (h : HandleId) : Follows c (current h (nameOf h) : Action σ _) :=
  follows_current_of_follows h (.of_reads (reads_nameOf h))

/-- To ask for a path follows every course. -/
theorem follows_path (h : HandleId) : Follows c (current h (pathOf h) : Action σ _) :=
  follows_current_of_follows h <| .bind (.look _) fun _ =>
    .bind (.of_reads (reads_scopePath _)) fun _ =>
      .bind (.of_reads (reads_nameOf h)) fun _ => .pure _

/-- To ask for a name in full follows every course, whether or not the global scope is left out. A
name with the global scope left out is the name of the symbol alone. -/
theorem follows_qualifiedName (h : HandleId) (bare : Bool) :
    Follows c (qualifiedName h bare : Action σ _) := by
  unfold qualifiedName
  split
  · exact follows_name h
  · exact .map (follows_path h)

/-- To ask for the scope of a symbol follows every course. Its parent is read off the row, and the
handle of the parent is looked up. -/
theorem follows_parentOf (h : HandleId) : Follows c (parentOf h : Action σ _) := by
  refine follows_current_of_follows h (.bind (.look _) fun parent => ?_)
  split
  · exact .pure _
  · exact follows_lookup _

/-- To count the references that a symbol owns only reads: neither the kind of the symbol nor the
limit matters. -/
theorem reads_countOwned (h : HandleId) (limit : Option Nat) :
    Reads (countOwned h limit : Action σ _) :=
  .bind (.look _) fun _ => .bind (.bind (reads_rowsAt _) fun _ => .pure _) fun _ =>
    .bind (.look _) fun _ => .bind (.look _) fun _ => .pure _

/-- To count references follows every course. -/
theorem follows_referenceCount (h : HandleId) : Follows c (referenceCount h : Action σ _) :=
  follows_current_of_follows h (.of_reads (reads_countOwned h none))

/-- To ask whether there are so many references follows every course. -/
theorem follows_hasReferences (h : HandleId) (n : Nat) :
    Follows c (hasReferences h n : Action σ _) :=
  follows_current_of_follows h (.map (.of_reads (reads_countOwned h _)))

/-- To display a symbol asks for its name, and tells its key if this is refused. The refusal is not
passed on, since something is displayed in any case. -/
theorem follows_display (h : HandleId) : Follows c (display h : Action σ _) := by
  refine .bind (.attempt (follows_name h)) fun answer => ?_
  split
  · exact .pure _
  · exact .bind (.look _) fun _ => .pure _

/-- To list references follows every course, whatever monitor is told of the progress and may cancel
it. What the monitor keeps is its own, and no part of the table. -/
theorem follows_references {μ : Type} (m : Monitor μ) (h : HandleId) (watcher : μ) :
    Follows c (references m h watcher : Action σ _) :=
  follows_current_of_follows h (.look _)

/-- In particular, to list references under a watch that cancels after some rounds follows every
course. -/
theorem follows_watchedReferences (h : HandleId) (w : Monitor.Watch) :
    Follows c (watchedReferences h w : Action σ _) := by
  refine .bind (.attempt (follows_references _ h w)) fun answer => ?_
  split <;> exact .pure _

/-- To take a copy of what a symbol shows follows every course. Each of its parts follows the
course, and a refusal of a part is kept in the copy and ends nothing. -/
theorem follows_snapshot (h : HandleId) : Follows c (snapshot h : Action σ _) :=
  .bind (.look _) fun _ => .bind (follows_isValid h) fun _ => .bind (.look _) fun _ =>
  .bind (follows_display h) fun _ => .bind (.attempt (follows_name h)) fun _ =>
  .bind (.attempt (follows_path h)) fun _ => .bind (.attempt (follows_telling h _)) fun _ =>
  .bind (.attempt (follows_telling h _)) fun _ => .bind (.attempt (follows_parentOf h)) fun _ =>
  .bind (.attempt (follows_telling h _)) fun _ => .bind (.attempt (follows_telling h _)) fun _ =>
  .bind (.attempt (follows_current_of_follows h (.look _))) fun _ =>
  .bind (.attempt (follows_telling h _)) fun _ => .bind (.attempt (follows_telling h _)) fun _ =>
  .bind (.attempt (follows_telling h _)) fun _ =>
  .bind (.attempt (follows_current_of_follows h (.look _))) fun _ =>
  .bind (.attempt (follows_current_of_follows h (.look _))) fun _ =>
  .bind (.attempt (follows_referenceCount h)) fun _ =>
  .bind (.attempt (follows_hasReferences h 1)) fun _ =>
  .bind (.attempt (follows_hasReferences h 2)) fun _ => .pure _

/-- A query keeps up the handles and nothing else. There is one case for each query. A query for a
column is answered from the handle once it was refreshed. -/
theorem follows_answer (h : HandleId) (q : Query) : Follows c (answer h q : Action σ _) := by
  cases q with
  | isValid => exact .map (follows_isValid h)
  | isDerived | key | description => exact .look _
  | display => exact .map (follows_display h)
  | name => exact .map (follows_name h)
  | qualifiedName bare => exact .map (follows_qualifiedName h bare)
  | path => exact .map (follows_path h)
  | address | scope | isGlobal | provenance | data1 | data2 | data3 =>
    exact .map (follows_telling h _)
  | parent => exact .map (follows_parentOf h)
  | isPinned | isPrimary | isEntryPoint => exact .map (follows_current_of_follows h (.look _))
  | encloses scope =>
    exact .map (follows_current_of_follows h (.of_reads (reads_encloses h scope)))
  | referenceCount => exact .map (follows_referenceCount h)
  | hasReferences => exact .map (follows_hasReferences h 1)
  | hasSeveralReferences => exact .map (follows_hasReferences h 2)
  | references watch? =>
    cases watch? with
    | none => exact .map (follows_references _ h ())
    | some w => exact follows_watchedReferences h w
  | snapshot => exact .map (follows_snapshot h)

end Action

end SymbolTable
