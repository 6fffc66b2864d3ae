import SymbolTable.Proofs.Action.Upkeep
import SymbolTable.Proofs.Table.Pool

/-!
# Finding symbols

In an exact table the pool has the live handles and no others, so what is found for a key is the
handle with that key, and where nothing is found there is no row. It is enough that the pool finds
nothing wrong (`Table.Pools`) for a search to answer if the store works, whatever became of the
rows: the stored symbol of an id is found (`answers_lookup`), and so are those of a list of ids, all
of which are ready at the end, and go on to be what is found for the ids (`answers_lookupEach`).
-/

namespace SymbolTable

open Table (Path upkeep)

variable {σ α : Type} {t t' : Table} {h : HandleId} {id : SymbolId}

/-- In an exact table, a refresh finds a symbol as it was. Either the copy was current, or it is
replaced by the row under the id, which is the same in an exact table. -/
theorem Table.Refreshed.row_eq_of_exact (hr : t.Refreshed h (.ok ()) t') (he : t.Exact) :
    (t'.handle h).row = (t.handle h).row := by
  cases hr with
  | ready => rfl
  | reloaded hlive hrow _ hget =>
    cases hget.symm.trans ((he.mirrors h).row _ hrow)
    rw [handle_updateHandle_self t (lt_of_live hlive), hrow]
    rfl

/-- In an exact table, a refresh finds a symbol where it was. The address that is copied with the
row is the one that the handle had, since handles are in order. -/
theorem Table.Refreshed.address_eq (hr : t.Refreshed h (.ok ()) t') (hs : t.Sound) (he : t.Exact) :
    (t'.handle h).address = (t.handle h).address := by
  cases hr with
  | ready => rfl
  | reloaded hlive hrow _ hget =>
    cases hget.symm.trans ((he.mirrors h).row _ hrow)
    rw [handle_updateHandle_self t (lt_of_live hlive)]
    exact ((hs.inOrder h).address _ hrow).symm

namespace Action

/-! ## What is found is there -/

/-- The handle that was found for an id is live, or there is no row. -/
def Finds (id : SymbolId) (t : Table) : Option HandleId → Prop
  | none => t.row? id = none
  | some h => (t.handle h).deleted = false ∧ (t.handle h).key = .stored id

section
variable (hs : t.Sound) (he : t.Exact)

include hs he

/-- If it is answered, the handle that is found for an id is live, or there is no row under the id.
A handle that is in the pool is live, and one that is not there has no row or is made anew, live. -/
theorem ends_pooled_handleOfRow (id : SymbolId) :
    Ends t (pooled (.stored id) (handleOfRow id) : Action σ _) fun answer t' =>
      ∀ found, answer = .ok found → Finds id t' found := by
  refine ends_pooled (tells_handleOfRow hs id) ?_ ?_ ?_ fun _ => nofun
  · rintro h hget found ⟨⟩
    exact (he.pooled _ h).1 hget
  · rintro - hnone found ⟨⟩
    exact hnone
  · rintro s - ⟨r, hrow, hofRow⟩ found ⟨⟩
    obtain ⟨k, -, rfl⟩ := Handle.eq_of_ofRow hofRow
    have hid : r.id = id := Table.id_of_row? hrow
    rw [Finds, Table.handle_adopt, if_pos rfl]
    exact ⟨rfl, congrArg Key.stored hid⟩

/-- In an exact table, a lookup finds what is stored. The handle that is found may turn out to be
gone when it is refreshed. Then its row is gone, too, which is the other case of `Finds`. -/
theorem ends_lookup (id : SymbolId) :
    Ends t (lookup id : Action σ _) fun answer t' =>
      ∀ found, answer = .ok found → Finds id t' found := by
  unfold lookup
  refine .look_bind ?_
  split
  · exact ends_pooled_handleOfRow hs he id
  · rename_i h hget
    obtain ⟨hlive, hkey⟩ := (he.pooled _ h).1 hget
    refine .attempt_bind (ends_refresh hs h) fun answer t₁ hr => ?_
    have hpath : Path upkeep t t₁ := hr.path
    have hs₁ := hpath.sound hs
    split
    · refine .pure ?_
      rintro found ⟨⟩
      exact ⟨hr.isReady.live, hpath.key_stored hs hkey⟩
    · exact ends_pooled_handleOfRow hs₁ (hpath.exact not_false not_false hs False.elim he) id
    · exact .fail nofun

/-- The handle that is found for an address is that of the symbol derived from there. In the pool it
stands under this key, and one that is made gets it. -/
theorem ends_derivedAt (a : Address) :
    Ends t (derivedAt a : Action σ _) fun answer t' =>
      ∀ h, answer = .ok (some h) → (t'.handle h).key = .derived a := by
  unfold derivedAt
  split
  · exact .pure nofun
  · refine (tells_rowsAt hs a).ends_bind (fun rows _ => ?_) fun _ => nofun
    split
    · exact .pure nofun
    · refine ends_pooled (P := (· = some (Handle.derived a))) (.pure rfl) ?_ (fun _ _ => nofun) ?_
        fun _ => nofun
      · rintro h hget _ ⟨⟩
        exact ((he.pooled _ h).1 hget).2
      · rintro s - ⟨⟩ _ ⟨⟩
        rw [Table.handle_adopt, if_pos rfl]
        rfl

end

end Action

/-! ## Where the store works -/

namespace Table

/-- The handle is that of the stored symbol with this id, and is ready. -/
structure Serves (t : Table) (h : HandleId) (id : SymbolId) : Prop where
  ready : t.IsReady h
  key : (t.handle h).key = .stored id

/-- What serves goes on to serve while handles are kept up. -/
theorem Serves.of_upkeep (hserves : t.Serves h id) (hpath : Path upkeep t t') : t'.Serves h id := by
  refine ⟨hserves.ready.of_upkeep hpath, ?_⟩
  rw [hserves.ready.handle_eq hpath]
  exact hserves.key

/-- The handle serves for the id, and it is what is found for it. -/
structure Offers (t : Table) (h : HandleId) (id : SymbolId) : Prop extends t.Serves h id where
  found : t.pool.get? (.stored id) = some h

/-- What is found for an id is still found for it when handles have been kept up. Its handle is
current, and a current handle is not taken out of the pool. -/
theorem Offers.of_upkeep (hoffers : t.Offers h id) (hpath : Path upkeep t t') : t'.Offers h id := by
  refine ⟨hoffers.toServes.of_upkeep hpath, ?_⟩
  induction hpath with
  | refl => exact hoffers.found
  | tail hpath hstep ih =>
    exact hstep.get?_of_isCurrent (hoffers.ready.of_upkeep hpath).isCurrent ih

/-- In an exact table, no two handles are that of one stored symbol. -/
theorem Exact.eq_of_serves (he : t.Exact) {k : HandleId} (hh : t.Serves h id) (hk : t.Serves k id) :
    k = h :=
  he.pooled.eq_of_key hh.ready.live hk.ready.live (hk.key.trans hh.key.symm)

/-- In an exact table, the handle of a stored symbol has its row. It cannot be marked deleted, since
its row is there, and no other row could be under its id. -/
theorem Exact.row_of_key (he : t.Exact) (hs : t.Sound) (hkey : (t.handle h).key = .stored id) {r : Row}
    (hget : t.row? id = some r) : (t.handle h).row = some r := by
  have hlive : (t.handle h).deleted = false := by
    rw [← Bool.not_eq_true]
    intro hdeleted
    cases hget.symm.trans ((he.mirrors h).gone id hkey hdeleted)
  obtain ⟨x, hrow, rfl⟩ := (hs.inOrder h).exists_row hkey hlive
  cases hget.symm.trans ((he.mirrors h).row x hrow)
  exact hrow

/-- In an exact table, a handle keeps its row while handles are kept up. The table is still exact
then, and its rows are the same. -/
theorem Exact.row_of_upkeep (he : t.Exact) (hs : t.Sound) (hpath : Path upkeep t t') {r : Row}
    (hrow : (t.handle h).row = some r) : (t'.handle h).row = some r := by
  have he' := hpath.exact not_false not_false hs False.elim he
  refine he'.row_of_key (hpath.sound hs) (hpath.key_stored hs ((hs.inOrder h).key r hrow)) ?_
  rw [row?_congr hpath.rows_eq_of_upkeep]
  exact (he.mirrors h).row r hrow

/-- In an exact table, a live handle stays that of the same symbol, where it is, while handles are
kept up. Refreshing the handle brings nothing new, for the copy that it has is the row that is
stored. This is what lets comparisons and walks go by the rows. -/
theorem Exact.symbol_of_upkeep (he : t.Exact) (hs : t.Sound) (hpath : Path upkeep t t')
    (hlive : (t.handle h).deleted = false) :
    (t'.handle h).deleted = false ∧ (t'.handle h).row = (t.handle h).row ∧ (t'.handle h).key = (t.handle h).key ∧
      (t'.handle h).kind = (t.handle h).kind ∧ (t'.handle h).address = (t.handle h).address := by
  cases hrow : (t.handle h).row with
  | none =>
    have hready : t.IsReady h := ⟨hlive, .inl hrow⟩
    rw [hready.handle_eq hpath]
    exact ⟨hlive, hrow, rfl, rfl, rfl⟩
  | some r =>
    have hrow' := he.row_of_upkeep hs hpath hrow
    have horder := hs.inOrder h
    have horder' := (hpath.sound hs).inOrder h
    have hkind := Kind.ofTag?_eq_some_iff.2 (horder.tag r hrow)
    have hkind' := Kind.ofTag?_eq_some_iff.2 (horder'.tag r hrow')
    exact ⟨horder'.live r hrow', hrow', (horder'.key r hrow').trans (horder.key r hrow).symm,
      Option.some.inj (hkind'.symm.trans hkind), (horder'.address r hrow').trans (horder.address r hrow).symm⟩

/-- There is a row under the id, which stands for a kind. -/
def HasSymbol (t : Table) (id : SymbolId) : Prop :=
  ∃ r k, t.row? id = some r ∧ r.kind? = some k

/-- Whether there is a symbol under an id depends on the rows alone. -/
theorem HasSymbol.congr (hget : t.HasSymbol id) (hrows : t'.rows = t.rows) : t'.HasSymbol id := by
  rw [HasSymbol, row?_congr hrows]
  exact hget

end Table

namespace Action

/-- Nothing is to be done for a handle that is ready. Its copy has the count of the store, so no
call is made and no copy is taken. -/
theorem answers_refresh_of_isReady (hready : t.IsReady h) :
    Answers t (refresh h : Action σ Unit) fun _ t' => t' = t := by
  refine .look_bind (.look_bind ?_)
  rw [hready.live, if_neg Bool.false_ne_true]
  split
  · exact .pure rfl
  · rename_i r hrow
    rcases hready.current with hnone | hseen
    · rw [hrow] at hnone
      cases hnone
    · rw [if_pos hseen]
      exact .pure rfl

/-- What is done to the symbol of a handle that is ready is done at once, with no refresh in
between. The table is asked first whether it is open, and then the handle whether it is current. -/
theorem answers_current_of_isReady {a : Action σ α} {P : α → Table → Prop} (hopen : t.closed = false)
    (hready : t.IsReady h) (ha : Answers t a P) : Answers t (current h a) P := by
  refine Ends.ask_bind (fun _ _ => (answers_refresh_of_isReady hready).bind ?_) fun fault hfault => ?_
  · rintro _ _ rfl
    exact ha
  · rw [hopen] at hfault
    cases hfault

section
variable (hs : t.Sound) (he : t.Exact) (hworks : t.store.Works)

include hs he hworks

/-- In an exact table a live handle is refreshed for certain, since its row is there. The refresh
may take a new copy, but of the same row. The store has to work, or the call for the row might be
refused. -/
theorem answers_refresh (hlive : (t.handle h).deleted = false) :
    Answers t (refresh h : Action σ Unit) fun _ t' => t'.IsReady h := by
  refine (ends_refresh hs h).imp fun answer t' hr => ?_
  cases answer with
  | ok => exact ⟨(), rfl, hr.isReady⟩
  | error fault =>
    cases hr with
    | vanished _ hrow _ hgone => exact absurd rfl (hgone _ ((he.mirrors h).row _ hrow))
    | deleted hdeleted => cases hlive.symm.trans hdeleted
    | failed _ hfails => exact absurd hfails hworks.not_mayFail

/-- Where there is no row, nothing is found. A handle in the pool would have its row, so there is
none in it, and none is made of nothing. -/
theorem answers_lookup_of_row?_eq_none (hnone : t.row? id = none) :
    Answers t (lookup id : Action σ _) fun found t' => found = none ∧ t' = t := by
  have hfree : t.pool.get? (.stored id) = none := by
    cases hget : t.pool.get? (.stored id) with
    | none => rfl
    | some h =>
      obtain ⟨hlive, hkey⟩ := (he.pooled _ h).1 hget
      obtain ⟨r, hrow, rfl⟩ := (hs.inOrder h).exists_row hkey hlive
      cases hnone.symm.trans ((he.mirrors h).row r hrow)
  refine .look_bind ?_
  rw [hfree]
  refine .look_bind ?_
  rw [hfree]
  refine Answers.bind (P := fun s? t' => s? = none ∧ t' = t) (.look_bind ?_) ?_
  · refine Ends.seq (.getRow hs.backend (.ok ?_) fun _ hfails => absurd hfails hworks.not_mayFail)
    rw [hnone]
    exact Answers.pure ⟨rfl, rfl⟩
  · rintro _ _ ⟨rfl, rfl⟩
    exact Answers.pure ⟨rfl, rfl⟩

end

section
variable (hs : t.Sound) (hworks : t.store.Works)

include hs hworks

/-- A row that stands for a kind gets a new handle. The handle is made of the row as it is stored at
that moment, and is not in the pool yet. -/
theorem answers_handleOfRow (hget : t.HasSymbol id) :
    Answers t (handleOfRow id : Action σ _) fun s? t' =>
      t' = t ∧ ∃ s, s? = some s ∧ s.deleted = false ∧ s.key = .stored id ∧
        s.seenAt = t.store.modificationCount := by
  obtain ⟨r, k, hget, hk⟩ := hget
  obtain rfl := Table.id_of_row? hget
  refine .look_bind (Ends.seq (.getRow hs.backend (.ok ?_) fun _ hfails => absurd hfails hworks.not_mayFail))
  rw [hget]
  dsimp only
  rw [Handle.ofRow, hk]
  exact Answers.pure ⟨rfl, _, rfl, rfl, rfl, rfl⟩

/-- Where nothing is found for an id, there is a new handle for its row. It is adopted under the key
of the id, which was free, so from now on it is the one that is found. -/
theorem answers_pooled_handleOfRow (hget : t.HasSymbol id) (hfree : t.pool.get? (.stored id) = none) :
    Answers t (pooled (.stored id) (handleOfRow id) : Action σ _) fun found t' =>
      ∃ h, found = some h ∧ t'.Offers h id := by
  refine .look_bind ?_
  rw [hfree]
  refine (answers_handleOfRow hs hworks hget).bind ?_
  rintro _ t ⟨rfl, s, rfl, hlive, hkey, hseen⟩
  refine .look_bind (Ends.change_bind (Answers.pure ⟨_, rfl, ?_⟩))
  have heq : (t.adopt (.stored id) s).handle t.handles.length = s := by
    rw [Table.handle_adopt, if_pos rfl]
  refine ⟨⟨⟨?_, .inr ?_⟩, ?_⟩, ?_⟩
  · rw [heq, hlive]
  · rw [heq, hseen]
    rfl
  · rw [heq, hkey]
  · show (t.pool.insert (.stored id) t.handles.length).get? (.stored id) = _
    rw [Dict.get?_insert, if_pos rfl]

/-- A symbol that is stored is found: by the handle that was found for it before, unless that one is
gone. If it is gone, there is another row under the id by now, put there by somebody else, and a new
handle is made of that one. The table only has to have a pool in order for this. -/
theorem answers_lookup (hp : t.Pools) (hget : t.HasSymbol id) :
    Answers t (lookup id : Action σ _) fun found t' => ∃ h, found = some h ∧ t'.Offers h id := by
  unfold lookup
  refine .look_bind ?_
  split
  · exact answers_pooled_handleOfRow hs hworks hget ‹_›
  · rename_i h hfound
    obtain ⟨hlive, hkey⟩ := hp.found _ h hfound
    refine Ends.attempt_bind (ends_refresh hs h) fun answer t₁ hr => ?_
    have hpath : Path upkeep t t₁ := hr.path
    cases answer with
    | ok =>
      refine Answers.pure ⟨h, rfl, ⟨hr.isReady, hpath.key_stored hs hkey⟩, ?_⟩
      rw [hr.pool_eq]
      exact hfound
    | error fault =>
      cases hr with
      | vanished =>
        refine answers_pooled_handleOfRow (hpath.sound hs) hworks (hget.congr rfl) ?_
        show (t.pool.evict (t.handle h).key h).get? (.stored id) = none
        rw [hkey, Dict.evict, if_pos hfound, Dict.get?_erase, if_pos rfl]
      | deleted hdeleted => cases hlive.symm.trans hdeleted
      | failed _ hfails => exact absurd hfails hworks.not_mayFail

omit hs hworks in
/-- What is found for an id goes on to be. The pool answers with the handle, which is ready, so
nothing is refreshed and no other one is made. -/
theorem answers_lookup_of_offers (hoffers : t.Offers h id) :
    Answers t (lookup id : Action σ _) fun found t' => found = some h ∧ t' = t := by
  unfold lookup
  refine .look_bind ?_
  rw [hoffers.found]
  refine Ends.attempt_bind (answers_refresh_of_isReady hoffers.ready) ?_
  rintro _ _ ⟨_, rfl, rfl⟩
  exact Answers.pure ⟨rfl, rfl⟩

/-- One after the other, the stored symbols of the ids are found, and none of them is lost
meanwhile. The induction is on the ids. Those that were found first still serve when the rest have
been found, because handles are only kept up. -/
theorem answers_mapM_lookup (hp : t.Pools) (ids : List SymbolId) (hids : ∀ id ∈ ids, t.HasSymbol id) :
    Answers t (ids.mapM lookup : Action σ _) fun found t' =>
      ∃ handles, found = handles.map some ∧ List.Forall₂ t'.Offers handles ids := by
  induction ids generalizing t with
  | nil => exact Answers.pure ⟨[], rfl, .nil⟩
  | cons id ids ih =>
    rw [List.mapM_cons]
    have hpath : Ends t (lookup id : Action σ _) fun _ t' => Path upkeep t t' :=
      follows_lookup (c := .steps upkeep) id t hs
    refine ((answers_lookup hs hworks hp (hids id (.head _))).and hpath).bind ?_
    rintro _ t₁ ⟨⟨h, rfl, hoffers⟩, hpath⟩
    have hs₁ := hpath.sound hs
    have hp₁ := hpath.pools not_false hs hp
    have hstore : t₁.store = t.store := hpath.upkeep.1
    have hids₁ : ∀ id ∈ ids, t₁.HasSymbol id := fun id hid =>
      (hids id (.tail _ hid)).congr (congrArg (·.backend.rows) hstore)
    have hpath₁ : Ends t₁ (ids.mapM lookup : Action σ _) fun _ t' => Path upkeep t₁ t' :=
      Follows.mapM (c := .steps upkeep) follows_lookup ids t₁ hs₁
    refine ((ih hs₁ (hstore ▸ hworks) hp₁ hids₁).and hpath₁).bind ?_
    rintro _ t₂ ⟨⟨handles, rfl, hall⟩, hpath₂⟩
    exact Answers.pure ⟨h :: handles, rfl, .cons (hoffers.of_upkeep hpath₂) hall⟩

/-- The handles of stored symbols are found one after the other, in the order of the ids. A lookup
leaves rows and pool fit for the next one, and what was found before goes on to be offered. The
induction is on the list. -/
theorem answers_lookupEach (hp : t.Pools) (ids : List SymbolId) (hids : ∀ id ∈ ids, t.HasSymbol id) :
    Answers t (lookupEach ids : Action σ _) fun found t' => List.Forall₂ t'.Offers found ids := by
  refine (answers_mapM_lookup hs hworks hp ids hids).bind ?_
  rintro _ t' ⟨handles, rfl, hall⟩
  refine Answers.pure ?_
  rw [List.filterMap_map]
  simpa using hall

end

end Action

end SymbolTable
