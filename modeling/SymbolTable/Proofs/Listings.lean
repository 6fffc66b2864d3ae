import SymbolTable.Proofs.Action.Spreading
import SymbolTable.Proofs.Membership
import SymbolTable.Proofs.Primaries

/-!
# Listings agree with the store

The symbols of a scope are found by the list of its members, and those of the whole table or at an
address by the rows, each by a lookup of its id. If the list is right, what is found is one symbol
for each row, in the order of the rows (`answers_symbolsIn`, `answers_allSymbols`), or with the
symbol that is designated before all others (`answers_symbolsAt_in_order`). Each of them is ready
and goes on to be found for the id of its row while the others are looked up, so it shows its row
(`Situated.presents`).

So it is after every walk, whatever became of rows behind the table's back (`Walk.listings_agree`):
a symbol that was found before may be gone, or stand for a row of another kind now, but then the
lookup finds out, for its copy of the row is out of date.
-/

namespace SymbolTable

open SymbolTable.Action

variable {σ : Type} {t t' : Table} {h : HandleId} {a : Address}

/-! ## The order of symbols at an address -/

namespace Row

/-- The row with the id that is designated comes first, if it is there, and the others follow in
order. -/
def primaryFirst (primary? : Option SymbolId) (rows : List Row) : List Row :=
  rows.filter (some ·.id = primary?) ++ rows.filter (some ·.id ≠ primary?)

/-- To put the primary symbol first only changes the order of the list. -/
theorem primaryFirst_perm (primary? : Option SymbolId) (rows : List Row) :
    (primaryFirst primary? rows).Perm rows := by
  have hperm := List.filter_append_perm (fun r : Row => decide (some r.id = primary?)) rows
  simpa only [primaryFirst, decide_not] using hperm

/-- Put in order, the rows are sorted as their ids are. The primary one is put in front of the
others, which keep their order, and that is what the comparison wants. -/
theorem pairwise_primaryFirst {rows : List Row} (hrows : Ascending rows) (primary? : Option SymbolId) :
    (primaryFirst primary? rows).Pairwise fun x y => comesFirst primary? (some x.id) (some y.id) = true := by
  have hfirst (x y : Row) (hx : some x.id = primary?) : comesFirst primary? (some x.id) (some y.id) = true := by
    rw [comesFirst_iff, place_eq_zero_iff.2 hx]
    exact Nat.zero_le _
  refine List.pairwise_append.2 ⟨?_, ?_, fun x hx y _ => hfirst x y (by simpa using (List.mem_filter.1 hx).2)⟩
  · refine List.Pairwise.imp_of_mem (fun {x y} hx _ _ => ?_) (hrows.filter _)
    exact hfirst x y (by simpa using (List.mem_filter.1 hx).2)
  · refine List.Pairwise.imp_of_mem (fun {x y} hx hy hlt => ?_) (hrows.filter _)
    have hx : some x.id ≠ primary? := by simpa using (List.mem_filter.1 hx).2
    have hy : some y.id ≠ primary? := by simpa using (List.mem_filter.1 hy).2
    rw [comesFirst_iff, place, if_neg hx, place, if_neg hy]
    exact Nat.succ_le_succ (Nat.le_of_lt (UInt64.lt_iff_toNat_lt.1 hlt))

/-- The ids of rows are sorted by putting the rows in order. Both are sorted permutations of the
same list, and no two ids have the same place, so there is only one. -/
theorem mergeSort_ids {rows : List Row} (hrows : Ascending rows) (primary? : Option SymbolId) :
    (rows.map (some ·.id)).mergeSort (comesFirst primary?) =
      (primaryFirst primary? rows).map (some ·.id) := by
  refine List.Perm.eq_of_pairwise (fun a b _ _ hab hba => ?_)
    (List.pairwise_mergeSort (comesFirst_trans primary?) (comesFirst_total primary?) _)
    (List.pairwise_map.2 (pairwise_primaryFirst hrows primary?)) ?_
  · exact place_injective (Nat.le_antisymm (comesFirst_iff.1 hab) (comesFirst_iff.1 hba))
  · exact (List.mergeSort_perm _ _).trans ((primaryFirst_perm primary? rows).map _).symm

end Row

/-! ## Handles that were found -/

namespace Table

/-- Handles that were found stand in the order of their ids if their keys do. Ids tell handles
apart, so a handle with the id of a row is the one that was found for this row. -/
theorem forall₂_offers_of_map {found handles : List HandleId} {ids ids' : List SymbolId}
    (hall : List.Forall₂ t.Offers found ids) (hsub : ∀ h ∈ handles, h ∈ found)
    (hkeys : handles.map (fun h => (t.handle h).id?) = ids'.map some) :
    List.Forall₂ t.Offers handles ids' := by
  have hids : List.Forall₂ (fun h id => (t.handle h).id? = some id) handles ids' := by
    rw [← List.forall₂_map_right_iff, ← List.forall₂_map_left_iff, hkeys, List.forall₂_eq_eq_eq]
  refine List.Forall₂.imp ?_ ((List.forall₂_and_left _ _).2 ⟨hsub, hids⟩)
  rintro h id ⟨hmem, hid⟩
  obtain ⟨i, -, hoffers⟩ := exists_of_forall₂ hall hmem
  obtain rfl : i = id := Key.stored.inj (hoffers.key.symm.trans (Handle.id?_eq_some_iff.1 hid))
  exact hoffers

/-- Once they are sorted, the handles that were found for rows stand in the order of the rows. The
sort compares the ids of handles, which are those of the rows, so sorting them comes to the same as
putting the rows in order. -/
theorem forall₂_offers_mergeSort {found : List HandleId} {rows : List Row} (hrows : Row.Ascending rows)
    (primary? : Option SymbolId) (hall : List.Forall₂ t.Offers found (rows.map (·.id))) :
    List.Forall₂ t.Offers
      (found.mergeSort fun h k => comesFirst primary? (t.handle h).id? (t.handle k).id?)
      ((Row.primaryFirst primary? rows).map (·.id)) := by
  refine forall₂_offers_of_map hall (fun h hh => List.mem_mergeSort.1 hh) ?_
  have hkeys : found.map (fun h => (t.handle h).id?) = rows.map (some ·.id) := by
    rw [← List.forall₂_eq_eq_eq, List.forall₂_map_left_iff, List.forall₂_map_right_iff]
    refine List.Forall₂.imp (fun h r hoffers => ?_) (List.forall₂_map_right_iff.1 hall)
    exact Handle.id?_eq_some_iff.2 hoffers.key
  refine (List.map_mergeSort (s := comesFirst primary?) fun _ _ _ _ => rfl).trans ?_
  rw [hkeys, Row.mergeSort_ids hrows, List.map_map]
  rfl

/-- An open table whose handles are coherent, whose pool finds nothing wrong, and whose lists are
right. The store works, and there were fewer writes than the modification count has values. -/
structure Listable (t : Table) : Prop where
  sound : t.Sound
  opened : t.closed = false
  pools : t.Pools
  coherent : t.Coherent
  catalogued : t.Catalogued
  works : t.store.Works
  writes_lt : t.writes < UInt64.size

/-- Rows of a table in order stand for symbols. They have kinds, and each of them is found under its
id. -/
theorem Listable.hasSymbol (hl : t.Listable) {rows : List Row} (hrows : ∀ r ∈ rows, r ∈ t.rows) :
    ∀ id ∈ rows.map (·.id), t.HasSymbol id := by
  intro id hid
  obtain ⟨r, hr, rfl⟩ := List.mem_map.1 hid
  obtain ⟨k, hk⟩ := hl.catalogued.kinds r (hrows r hr)
  exact ⟨r, k, row?_id hl.sound.backend (hrows r hr), hk⟩

end Table

/-! ## What is listed -/

namespace Action

/-- A handle that is ready is valid. What is asked of its symbol is nothing, and it is not
refused. -/
theorem answers_isValid_of_isReady (hopen : t.closed = false) (hready : t.IsReady h) :
    Answers t (isValid h : Action σ _) fun valid _ => valid = true := by
  have hcurrent : Answers t (current h (pure ()) : Action σ Unit) fun _ t' => t' = t :=
    answers_current_of_isReady hopen hready (.pure rfl)
  refine Ends.attempt_bind hcurrent ?_
  rintro _ _ ⟨_, rfl, -⟩
  exact Answers.pure rfl

section
variable (hl : t.Listable)

include hl

/-- Whether the list is used or made anew, it lists the rows of the scope. A list that is used has
the count of the store, and a catalogued table has no such list that is wrong. -/
theorem answers_memberIds (scope : Scope) :
    Answers t (memberIds scope : Action σ _) fun ids _ => ids = t.memberIds scope := by
  refine .look_bind (.look_bind ?_)
  split
  · rename_i n ids hcached
    rw [Option.filter_eq_some_iff] at hcached
    obtain ⟨hget, hnow⟩ := hcached
    have hnow : n = t.store.modificationCount := by simpa using hnow
    refine Answers.pure ((hl.catalogued.listed scope n ids hget).2 ?_)
    rw [hnow, Table.toNat_modificationCount hl.writes_lt]
  · refine Ends.seq (.rowsIn hl.sound.backend (.ok ?_) fun _ hfails => absurd hfails hl.works.not_mayFail)
    exact Ends.change_bind (Answers.pure rfl)

/-- The symbols in a scope are listed by ascending id, each under the handle that is found for it.
Each of the ids has a row that stands for a kind, so none is passed over when it is looked up. -/
theorem answers_symbolsIn (scope : Scope) : Answers t (symbolsIn scope : Action σ _) fun handles t' =>
    List.Forall₂ t'.Offers handles (t.memberIds scope) := by
  have hupkept := follows_memberIds (σ := σ) (c := .upkept) scope t hl.sound
  refine ((answers_memberIds hl scope).and hupkept).bind ?_
  rintro _ t₁ ⟨rfl, hrel⟩
  have hpath := Course.path_of_upkept hrel
  have hstore : t₁.store = t.store := hpath.upkeep.1
  refine answers_lookupEach (hpath.sound hl.sound) (hstore ▸ hl.works) (hpath.pools not_false hl.sound hl.pools)
    _ fun id hid => ?_
  exact (hl.hasSymbol (fun r hr => List.mem_of_mem_filter hr) id hid).congr (congrArg (·.backend.rows) hstore)

/-- All symbols are listed by ascending id, each under the handle that is found for it. -/
theorem answers_allSymbols : Answers t (allSymbols : Action σ _) fun handles t' =>
    List.Forall₂ t'.Offers handles (t.rows.map (·.id)) := by
  refine Ends.seq (.allRows hl.sound.backend (.ok ?_) fun _ hfails => absurd hfails hl.works.not_mayFail)
  exact answers_lookupEach hl.sound hl.works hl.pools _ (hl.hasSymbol fun _ => id)

/-- Where rows lie, their symbols are listed in order. They are looked up by ascending ids and then
sorted by place. -/
theorem answers_symbolsAt_in_order (hoccupied : ¬ t.Vacant a) :
    Answers t (symbolsAt a : Action σ _) fun handles t' => List.Forall₂ t'.Offers handles
      ((Row.primaryFirst (t.facts.primaryAt a) (t.rows.filter (·.address = a))).map (·.id)) := by
  refine (answers_symbolsAt_of_occupied hl.sound hl.works hl.catalogued.kinds hl.pools hoccupied).imp ?_
  rintro _ t' ⟨found, rfl, hall⟩
  exact Table.forall₂_offers_mergeSort (hl.sound.backend.ascending_rows.filter _) _ hall

end

end Action

/-! ## What is shown -/

/-- The handle is valid and has the key and the kind of the row, and it is what is found for its
id. -/
structure Situated.Presents (s : Situated σ) (r : Row) (h : HandleId) : Prop where
  valid : ((isValid h).run s).1 = .ok true
  key : (s.table.handle h).key = .stored r.id
  kind : r.kind? = some (s.table.handle h).kind
  found : ((lookup r.id).run s).1 = .ok (some h)

/-- The listing answers handles that present the rows, one for each, in the same order. It leaves
the store as it is. -/
def Situated.Shows (s : Situated σ) (listing : Action σ (List HandleId)) (rows : List Row) : Prop :=
  ∃ handles s', listing.run s = (.ok handles, s') ∧ s'.table.store = s.table.store ∧
    List.Forall₂ s'.Presents rows handles

variable {s s₀ : Situated σ}

/-- A handle that is found for the id of a row presents the row. So whatever is asked of it is what
the row says, as the handle is that of the id and there is no other row under it. -/
theorem Situated.presents (hs : s.table.Sound) (hopen : s.table.closed = false) (hc : s.table.Coherent)
    (hlt : s.table.writes < UInt64.size) {r : Row} (hr : r ∈ s.table.rows)
    (hoffers : s.table.Offers h r.id) : s.Presents r h := by
  obtain ⟨_, s₁, hvalid, rfl⟩ := (answers_isValid_of_isReady (σ := σ) hopen hoffers.ready).exists_run
  obtain ⟨_, s₂, hfound, rfl, -⟩ := (answers_lookup_of_offers (σ := σ) hoffers).exists_run
  obtain ⟨x, hrow, hid⟩ := (hs.inOrder h).exists_row hoffers.key hoffers.ready.live
  have hseen : (s.table.handle h).seenAt = s.table.store.modificationCount := by
    rcases hoffers.ready.current with hnone | hseen
    · cases hrow.symm.trans hnone
    · exact hseen
  -- its copy is the row itself
  have hget : s.table.row? x.id = some x := (hc h).row?_eq hlt hrow hseen
  rw [hid, Table.row?_id hs.backend hr] at hget
  obtain rfl : r = x := Option.some.inj hget
  exact ⟨congrArg Prod.fst hvalid, hoffers.key, Kind.ofTag?_eq_some_iff.2 ((hs.inOrder h).tag r hrow),
    congrArg Prod.fst hfound⟩

/-- What is found for the ids of rows presents the rows. It is one statement for all listings, which
differ in the rows that they are about and in their order. -/
theorem Table.Listable.shows (hl : s.table.Listable) {listing : Action σ (List HandleId)} {rows : List Row}
    (hfollows : Follows .upkept listing) (hrows : ∀ r ∈ rows, r ∈ s.table.rows)
    (hanswers : Answers s.table listing fun handles t' => List.Forall₂ t'.Offers handles (rows.map (·.id))) :
    s.Shows listing rows := by
  obtain ⟨handles, s', hrun, hall, hrel⟩ := (hanswers.and (hfollows _ hl.sound)).exists_run
  have hpath := Course.path_of_upkept hrel
  have hstore : s'.table.store = s.table.store := hpath.upkeep.1
  have hlt : s'.table.writes < UInt64.size := by
    rw [Table.writes, hstore]
    exact hl.writes_lt
  have hs := hpath.sound hl.sound
  have hc := hpath.coherent hl.sound hlt hl.coherent
  have hopen := hpath.sameFrame.closed.trans hl.opened
  have hmem : ∀ r ∈ rows, r ∈ s'.table.rows := by
    intro r hr
    rw [Table.rows, hstore]
    exact hrows r hr
  refine ⟨handles, s', hrun, hstore, ?_⟩
  refine List.Forall₂.imp (fun r h hr => ?_)
    ((List.forall₂_and_left _ _).2 ⟨hmem, (List.forall₂_map_right_iff.1 hall).flip⟩)
  exact Situated.presents hs hopen hc hlt hr.1 hr.2

/-- An outage may end on a walk. -/
theorem Walk.restored (hwalk : Walk s₀ s) : Walk s₀ s.restored :=
  .drift hwalk (Table.drifts_withOutages _ _) rfl

/-- After a walk, the table can be listed. A walk leads along steps that keep pools and copies as
they have to be, as long as the count of writes does not come round. -/
theorem Walk.listable {rules : Rules} (hnew : s₀.table.IsNew rules) (hwalk : Walk s₀ s)
    (hlt : s.table.writes < UInt64.size) (hworks : s.table.store.Works) : s.table.Listable := by
  have hpath := hwalk.path hnew.sound
  exact ⟨hpath.sound hnew.sound, (hwalk.runs false).opened hnew,
    hpath.pools (fun hne => hne rfl) hnew.sound hnew.exact.pooled.pools,
    hpath.coherent hnew.sound hlt hnew.coherent, hwalk.catalogued hnew, hworks, hlt⟩

/-- **Listings agree with the store.** Whatever was done to a table since it was opened empty, by
moves, by their listeners and behind its back, and whichever calls of the store failed: if the store
works, the symbols of a scope are listed as its rows are, by ascending ids, and so are all symbols.
Where rows lie, the symbols are listed with the one that is designated first, if it is there, and
the others by ascending ids. What is listed is valid, has the key and the kind of its row, and is
what is found for its id. Rows that were put behind the table's back stand for kinds, no derived
symbol was moved, and there were fewer than 2^64 writes. -/
theorem Walk.listings_agree {rules : Rules} (hnew : s₀.table.IsNew rules) (hwalk : Walk s₀ s)
    (hlt : s.table.writes < UInt64.size) (hworks : s.table.store.Works) :
    Row.Ascending s.table.rows ∧
    (∀ scope, s.Shows (symbolsIn scope) (s.table.rows.filter (·.parent = scope))) ∧
    s.Shows allSymbols s.table.rows ∧
    ∀ a, (∃ r ∈ s.table.rows, r.address = a) → s.Shows (symbolsAt a)
      (Row.primaryFirst (s.table.facts.primaryAt a) (s.table.rows.filter (·.address = a))) := by
  have hl := hwalk.listable hnew hlt hworks
  refine ⟨hl.sound.backend.ascending_rows, fun scope => ?_, ?_, fun a hoccupied => ?_⟩
  · exact hl.shows (follows_symbolsIn scope) (fun r hr => List.mem_of_mem_filter hr) (answers_symbolsIn hl scope)
  · exact hl.shows follows_allSymbols (fun _ => id) (answers_allSymbols hl)
  · obtain ⟨x, hx, haddress⟩ := hoccupied
    refine hl.shows (follows_symbolsAt a) (fun r hr => ?_)
      (answers_symbolsAt_in_order hl fun hvacant => hvacant x hx haddress)
    exact List.mem_of_mem_filter ((Row.primaryFirst_perm _ _).mem_iff.1 hr)

/-- Of three labels in a scope, the members of which have been listed, one is designated, one is
made a function behind the table's back, and one is taken out. Until an outage ends, rows cannot be
scanned. -/
theorem Walk.listings_agree_of_retagged :
    let outages : Store.Outages := .ofRules [⟨.scan, none, .io "disk full"⟩]
    let s₀ : Situated Unit := ⟨.ofStore default .standard ⟨.memory .empty, outages⟩ true, (), 0⟩
    let id (n : UInt64) (h : n ≠ 0) : SymbolId := ⟨n, h⟩
    let scope : Scope := .of (id 1 (by decide))
    let draft (name : String) (k : Kind) (scope : Scope) : Draft :=
      ⟨name, k, .ram 16, scope, .userDefined, 0, 0, none⟩
    let go (s : Situated Unit) (m : Move) := ((m.action Listener.idle).run s).2
    let s := ([.create (draft "n" .namespaceScope .global), .create (draft "a" .label scope),
      .create (draft "b" .label scope), .create (draft "c" .label scope), .edit 3 .setPrimary,
      .search (.symbolsIn scope), .put ((draft "a" .function scope).row (id 2 (by decide))),
      .take (id 3 (by decide)), .search .allSymbols].foldl go s₀).restored
    s₀.table.IsNew .standard ∧ Walk s₀ s ∧ s.table.writes < UInt64.size ∧ s.table.store.Works ∧
      (Row.primaryFirst (s.table.facts.primaryAt (.ram 16))
        (s.table.rows.filter (·.address = .ram 16))).map (·.id) = [id 4 (by decide), id 2 (by decide)] ∧
      Row.Ascending s.table.rows ∧
      (∀ scope, s.Shows (symbolsIn scope) (s.table.rows.filter (·.parent = scope))) ∧
      s.Shows allSymbols s.table.rows ∧
      ∀ a, (∃ r ∈ s.table.rows, r.address = a) → s.Shows (symbolsAt a)
        (Row.primaryFirst (s.table.facts.primaryAt a) (s.table.rows.filter (·.address = a))) := by
  intro outages s₀ id scope draft go s
  have hnew : s₀.table.IsNew .standard := .memory _ _ _
  have hwalk : Walk s₀ s := by
    refine .restored ?_
    exact .move (.move (.move (.move (.move (.move (.move (.move (.move .refl trivial .idle) trivial .idle)
      trivial .idle) trivial .idle) trivial .idle) trivial .idle) ⟨.function, rfl⟩ .idle) trivial .idle)
      trivial .idle
  have hlt : s.table.writes < UInt64.size := by decide
  have hworks : s.table.store.Works := Table.works_restored _
  exact ⟨hnew, hwalk, hlt, hworks, by decide, Walk.listings_agree hnew hwalk hlt hworks⟩

end SymbolTable
