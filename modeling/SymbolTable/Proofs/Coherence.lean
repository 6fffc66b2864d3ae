import SymbolTable.Proofs.Run

/-!
# Coherence of handles

A handle keeps a copy of its row with the modification count at which the copy was taken, and does
not look at the row again as long as the count is the same. This is right as long as the count has
not come round: a copy is never newer than the store, and where it is as new as the store it is the
row that the store keeps (`Table.Coherent`). Rows may change behind the table's back, calls of the
store may fail and listeners may act at every moment, for each step of a table keeps its handles
coherent (`Table.Step.coherent`).
-/

namespace SymbolTable

open SymbolTable.Action
open Table (Path Step)

namespace Table

variable {t t' : Table} {may : Deed → Prop}

/-! ## Versions of a table -/

/-- The later table has seen more writes, or else keeps the same rows. -/
structure Precedes (t t' : Table) : Prop where
  writes_le : t.writes ≤ t'.writes
  row?_eq : t'.writes = t.writes → ∀ id, t'.row? id = t.row? id

namespace Precedes

/-- If the rows are kept as before, the table is as late as it was. -/
theorem of_backend (h : t'.store.backend = t.store.backend) : t.Precedes t' := by
  have hwrites : t'.writes = t.writes := congrArg Store.Backend.writes h
  have hrows : t'.rows = t.rows := congrArg Store.Backend.rows h
  exact ⟨Nat.le_of_eq hwrites.symm, fun _ => row?_congr hrows⟩

/-- A write makes the table later than it was. -/
theorem of_writes (h : t'.writes = t.writes + 1) : t.Precedes t' :=
  ⟨by omega, fun heq => by omega⟩

/-- To take a row out counts as a write if there was a row, and otherwise the rows are the same. The
count goes up by one exactly if a row was taken out, whichever kind of store it is. -/
theorem of_removes {b : Store.Backend} {id₀ : SymbolId} (hs : t.Sound)
    (hremoves : t.store.backend.Removes id₀ b) (h : t'.store.backend = b) : t.Precedes t' := by
  have hwrites : t'.writes = t.writes + (t.row? id₀).isSome.toNat :=
    (congrArg Store.Backend.writes h).trans hremoves.writes
  refine ⟨by omega, fun heq id => ?_⟩
  -- without a write there was no row to take out
  have hnone : t.row? id₀ = none := by
    cases hrow : t.row? id₀ with
    | none => rfl
    | some r =>
      rw [hrow, Option.isSome_some, Bool.toNat_true] at hwrites
      omega
  have hrow : t'.row? id = (t.withBackend b).row? id :=
    row?_congr (t := t.withBackend b) (congrArg Store.Backend.rows h) id
  rw [hrow, row?_removes hs.backend hremoves]
  split
  · rename_i hid
    rw [hid, hnone]
  · rfl

/-- Later and later still is later. If no write was counted from the first to the last, none was on
either stretch. -/
theorem trans {t₁ t₂ t₃ : Table} (h : t₁.Precedes t₂) (h' : t₂.Precedes t₃) : t₁.Precedes t₃ := by
  have hle := h.writes_le
  have hle' := h'.writes_le
  refine ⟨Nat.le_trans hle hle', fun heq id => ?_⟩
  exact (h'.row?_eq (by omega) id).trans (h.row?_eq (by omega) id)

/-- Without a write, the list of rows is the same. Both lists ascend by ids, so it is enough that
they have the same members. -/
theorem rows_eq (h : t.Precedes t') (hs : t.Sound) (hs' : t'.Sound) (hwrites : t'.writes = t.writes) :
    t'.rows = t.rows := by
  refine hs.backend.ascending_rows.eq_of_mem_iff hs'.backend.ascending_rows fun r => ?_
  have hget := h.row?_eq hwrites r.id
  have hmem : r ∈ t.rows ↔ t.row? r.id = some r := by simp [row?_eq_some_iff hs.backend]
  have hmem' : r ∈ t'.rows ↔ t'.row? r.id = some r := by simp [row?_eq_some_iff hs'.backend]
  exact hmem'.trans (hget ▸ hmem.symm)

end Precedes

/-- No step goes back to an earlier version. The proof goes through the steps. Those that write
raise the count, and all others leave the backend, or at most draw an id, which changes no row. -/
theorem Step.precedes (h : Step may t t') (hs : t.Sound) : t.Precedes t' := by
  cases h with
  | aside h => exact .of_backend (congrArg Store.backend h.store)
  | plan | adopt | refresh | vanish | mark | relocate => exact .of_backend rfl
  | draw =>
    obtain ⟨-, hrows, hwrites, -⟩ := hs.backend.allocate
    exact ⟨Nat.le_of_eq hwrites.symm, fun _ => row?_congr hrows⟩
  | @insert _ k row b htag hstores | @create _ k row b s htag hstores =>
    exact .of_writes ((writes_withFresh t row b).trans (hstores.writes hs))
  | promote _ h _ _ _ _ hstores => exact .of_writes (hstores.writes hs)
  | edit h hrow hedits hputs => exact .of_writes hputs.writes
  | takeOut _ h hkey hremoves => exact .of_removes hs hremoves rfl
  | intrudePut _ hputs => exact .of_writes hputs.writes
  | intrudeTake _ hremoves => exact .of_removes hs hremoves rfl

/-- No number of steps goes back to an earlier version, so a copy that is as new as the store is
never a copy of another row. -/
theorem Path.precedes (h : Path may t t') (hs : t.Sound) : t.Precedes t' := by
  induction h with
  | refl => exact .of_backend rfl
  | tail hpath hstep ih => exact ih.trans (hstep.precedes (Path.sound hpath hs))

/-! ## Coherent tables -/

/-- The count is the number of writes until it comes round. -/
theorem toNat_modificationCount (hlt : t.writes < UInt64.size) :
    t.store.modificationCount.toNat = t.writes :=
  UInt64.toNat_ofNat_of_lt' hlt

/-- The copy of its row that the handle has is not newer than the store, and where it is as new it
is the row that the store keeps. -/
def UpToDate (t : Table) (s : Handle) : Prop :=
  ∀ r, s.row = some r → s.seenAt.toNat ≤ t.writes ∧
    (s.seenAt.toNat = t.writes → t.row? r.id = some r)

/-- What the handles have for current is current. -/
def Coherent (t : Table) : Prop :=
  ∀ h, t.UpToDate (t.handle h)

namespace UpToDate

variable {s : Handle}

/-- A handle without a row has no copy that could be out of date. -/
theorem of_row_eq_none (hrow : s.row = none) : t.UpToDate s := by
  intro r hr
  rw [hrow] at hr
  cases hr

/-- A copy that was just taken is current. The count has not come round, so the number that was seen
is the count of writes itself. -/
theorem of_seen {r : Row} (hlt : t.writes < UInt64.size) (hrow : s.row = some r)
    (hseen : s.seenAt = t.store.modificationCount) (hget : t.row? r.id = some r) :
    t.UpToDate s := by
  intro x hx
  rw [hrow] at hx
  cases hx
  rw [hseen, toNat_modificationCount hlt]
  exact ⟨Nat.le_refl _, fun _ => hget⟩

/-- A copy with the count of the store is the row that the store keeps, as long as the count is the
number of writes. -/
theorem row?_eq {r : Row} (h : t.UpToDate s) (hlt : t.writes < UInt64.size) (hrow : s.row = some r)
    (hseen : s.seenAt = t.store.modificationCount) : t.row? r.id = some r := by
  refine (h r hrow).2 ?_
  rw [hseen, toNat_modificationCount hlt]

/-- A copy that is up to date is still not newer than the store later on, and it is the row if
nothing was written. Writes are only ever counted up. If the counts are the same, there was none in
between. -/
theorem of_precedes (h : t.UpToDate s) (hle : t.Precedes t') : t'.UpToDate s := by
  intro r hrow
  obtain ⟨hseen, hget⟩ := h r hrow
  have hwrites_le := hle.writes_le
  refine ⟨Nat.le_trans hseen hwrites_le, ?_⟩
  intro heq
  have hwrites : t'.writes = t.writes := by omega
  rw [hle.row?_eq hwrites, hget (heq.trans hwrites)]

end UpToDate

/-- In a table that has just been opened no handle has a copy. -/
theorem IsNew.coherent {rules : Rules} (hnew : t.IsNew rules) : t.Coherent := by
  intro k
  rw [hnew.handle_eq]
  exact .of_row_eq_none rfl

/-- A handle that was coherent is so in a later table, too, if nothing became of the handle
itself. -/
theorem Coherent.of_precedes (h : t.Coherent) (hle : t.Precedes t') (k : HandleId) :
    t'.UpToDate (t.handle k) :=
  (h k).of_precedes hle

/-- Each step keeps the handles coherent, as long as the modification count has not come round.
There are two sorts of cases: the store changes and the copies stay, which is
`Coherent.of_precedes`, or a handle gets a copy, which was taken at that moment. -/
theorem Step.coherent (h : Step may t t') (hs : t.Sound) (hlt : t'.writes < UInt64.size)
    (hc : t.Coherent) : t'.Coherent := by
  have hall := hc.of_precedes (h.precedes hs)
  cases h with
  | aside h =>
    intro k
    rw [h.handle]
    exact hall k
  | plan | draw | intrudePut | intrudeTake => exact hall
  | adopt s hpool hnew =>
    refine forall_adopt hall _ ?_
    rcases hnew with ⟨id, r, hrow, hofRow⟩ | ⟨a, rfl⟩
    · obtain ⟨k, -, rfl⟩ := Handle.eq_of_ofRow hofRow
      obtain rfl := id_of_row? hrow
      exact .of_seen hlt rfl rfl hrow
    · exact .of_row_eq_none rfl
  | refresh h hlive hrow hstale hget =>
    rw [← id_of_row? hget] at hget
    exact forall_updateHandle hall (.of_seen hlt rfl rfl hget)
  | vanish =>
    intro k
    rw [handle_abandon]
    exact forall_updateHandle hall (.of_row_eq_none rfl) k
  | @insert _ k row b => exact forall_withFresh hall (fun _ => .of_row_eq_none rfl) row b
  | @create _ k row b s htag hstores hparent hnew =>
    have hfresh := forall_withFresh hall (fun _ => .of_row_eq_none rfl) row b
    refine forall_adopt hfresh _ ?_
    obtain ⟨k, -, rfl⟩ := Handle.eq_of_ofRow hnew
    exact .of_seen hlt rfl rfl hstores.row?_withFresh
  | @promote _ h row b _ _ _ _ hstores =>
    have hself : (t.withBackend b).row? row.id = some row := row?_self_of_puts hstores.puts
    intro k
    rw [handle_embody, handle_updateHandle_withBackend]
    exact forall_updateHandle hall (.of_seen hlt rfl rfl hself) k
  | @edit h r r' b _ _ hputs =>
    have hself : (t.withBackend b).row? r'.id = some r' := row?_self_of_puts hputs
    intro k
    rw [handle_updateHandle_withBackend]
    exact forall_updateHandle hall (.of_seen hlt rfl rfl hself) k
  | mark _ h =>
    intro k
    exact forall_updateHandle hall (hall h) k
  | takeOut =>
    intro k
    rw [handle_release, handle_updateHandle_withBackend]
    exact forall_updateHandle hall (.of_row_eq_none rfl) k
  | relocate _ h a _ hrow =>
    intro k
    rw [handle_withPool]
    exact forall_updateHandle hall (f := (·.relocated a)) (.of_row_eq_none hrow) k

/-- Handles stay coherent over any number of steps, as long as the count has not come round when
they are over. -/
theorem Path.coherent (h : Path may t t') (hs : t.Sound) (hlt : t'.writes < UInt64.size)
    (hc : t.Coherent) : t'.Coherent := by
  induction h with
  | refl => exact hc
  | tail hpath hstep ih =>
    have hs := Path.sound hpath hs
    have hle := (hstep.precedes hs).writes_le
    exact hstep.coherent hs hlt (ih (Nat.lt_of_le_of_lt hle hlt))

/-! ## Handles that are marked deleted -/

/-- No row of this id and tag is stored. -/
def Lacks (t : Table) (id : SymbolId) (tag : UInt8) : Prop :=
  ∀ r, t.row? id = some r → r.tag ≠ tag

/-- The store keeps no row for the handle, or the handle is found at an address, as that of the
symbol derived from there. A stored symbol is found so after two derived ones were relocated to one
address. -/
def MayDrop (t : Table) (h : HandleId) (id : SymbolId) : Prop :=
  t.Lacks id (t.handle h).kind.tag ∨ ∃ a, t.pool.get? (.derived a) = some h

/-- A step that marks the handle of a stored symbol deleted may do so before it or after it. It is
marked because its row was not found, by taking the row out, or as the symbol that the pool has for
an address where another is stored. -/
theorem Step.mayDrop (h : Step may t t') (hs : t.Sound) {k : HandleId} {id : SymbolId}
    (hkey : (t.handle k).key = .stored id) (hlive : (t.handle k).deleted = false)
    (hdeleted : (t'.handle k).deleted = true) : t.MayDrop k id ∨ t'.MayDrop k id := by
  have hsame : (t'.handle k).deleted ≠ (t.handle k).deleted := by
    rw [hlive, hdeleted]
    exact Bool.true_eq_false.mp
  cases h with
  | aside h => exact absurd (congrArg _ (h.handle k)) hsame
  | plan | draw | intrudePut | intrudeTake => exact absurd rfl hsame
  | adopt s =>
    rw [handle_adopt, if_neg (Nat.ne_of_lt (lt_of_key hkey))] at hsame
    exact absurd rfl hsame
  | refresh | mark => exact absurd (map_updateHandle Handle.deleted rfl) hsame
  | edit =>
    rw [handle_updateHandle_withBackend] at hsame
    exact absurd (map_updateHandle Handle.deleted rfl) hsame
  | promote =>
    rw [handle_embody, handle_updateHandle_withBackend] at hsame
    exact absurd (map_updateHandle Handle.deleted rfl) hsame
  | relocate =>
    rw [handle_withPool] at hsame
    exact absurd (map_updateHandle Handle.deleted rfl) hsame
  | @vanish h r _ hrow _ hgone =>
    rcases t.handle_updateHandle_or h (·.invalidated) k with heq | ⟨rfl, -⟩
    · exact absurd (congrArg Handle.deleted heq) hsame
    · obtain rfl : id = r.id := Key.stored.inj (hkey.symm.trans ((hs.inOrder k).key r hrow))
      refine .inl (.inl ?_)
      intro row hget
      rw [← (hs.inOrder k).tag r hrow]
      exact hgone row hget
  | @insert _ _ row b => exact .inl (.inr ⟨_, pooled_of_dropDerived (t := t.withBackend b) hsame⟩)
  | @create _ _ row b s =>
    rw [handle_adopt, length_withFresh, if_neg (Nat.ne_of_lt (lt_of_key hkey))] at hsame
    exact .inl (.inr ⟨_, pooled_of_dropDerived (t := t.withBackend b) hsame⟩)
  | @takeOut _ h id₀ b hkey₀ hremoves =>
    rcases (t.withBackend b).handle_updateHandle_or h (·.invalidated) k with heq | ⟨rfl, -⟩
    · exact absurd (congrArg Handle.deleted heq) hsame
    · obtain rfl : id = id₀ := Key.stored.inj (hkey.symm.trans hkey₀)
      have hnone : (t.withBackend b).row? id = none := by
        rw [row?_removes hs.backend hremoves, if_pos rfl]
      refine .inr (.inl ?_)
      intro r hget
      cases hnone.symm.trans hget

/-- Where the handle of a stored symbol is marked deleted on a path, there was reason to do so. The
induction is on the path. The first step that marks the handle is the one to look at, and before it
the handle has the key that it has at the end. -/
theorem Path.exists_mayDrop (h : Path may t t') (hs : t.Sound) {k : HandleId} {id : SymbolId}
    (hkey : (t.handle k).key = .stored id) (hlive : (t.handle k).deleted = false)
    (hdeleted : (t'.handle k).deleted = true) :
    ∃ t₁, Path may t t₁ ∧ Path may t₁ t' ∧ t₁.MayDrop k id := by
  induction h with
  | refl =>
    rw [hlive] at hdeleted
    cases hdeleted
  | @tail t₁ t₂ hpath hstep ih =>
    cases hmid : (t₁.handle k).deleted with
    | true =>
      obtain ⟨t₀, hbefore, hafter, hdrop⟩ := ih hmid
      exact ⟨t₀, hbefore, hafter.tail hstep, hdrop⟩
    | false =>
      have hkey₁ := Path.key_stored hpath hs hkey
      rcases hstep.mayDrop (Path.sound hpath hs) hkey₁ hmid hdeleted with hdrop | hdrop
      · exact ⟨t₁, hpath, .single hstep, hdrop⟩
      · exact ⟨t₂, hpath.tail hstep, .refl, hdrop⟩

end Table

/-! ## What a handle answers -/

variable {σ : Type} {s : Situated σ} {h : HandleId} {id : SymbolId}

namespace Action

/-- Where the call is answered, it is answered with the row, and one moment passes. The outage is
asked for the present moment only, so what is planned for later ones makes no difference here. -/
theorem run_getRow (hs : s.table.store.backend.Sound)
    (hworks : s.table.store.outages s.clock .get (some id) = none) :
    (getRow id).run s = (.ok (s.table.row? id), s.tick) := by
  have hget : s.table.store.get s.clock id = .ok (s.table.row? id) := by
    rw [Store.get, Store.reach, hworks, hs.get_eq]
    rfl
  exact congrArg (fun answer => (Except.mapError Fault.store answer, s.tick)) hget

/-- Where the store answers, a refresh is not refused because of it. The one call that a refresh
makes is to get the row, at the moment at which it begins, and this is the call for which no outage
is planned. -/
theorem run_refresh_ne (hs : s.table.Sound) (hkey : (s.table.handle h).key = .stored id)
    (hworks : s.table.store.outages s.clock .get (some id) = none) (fault : StoreFault) :
    ((refresh h).run s).1 ≠ .error (.store fault) := by
  unfold refresh
  rw [run_bind, run_look]
  dsimp only
  rw [run_bind, run_look]
  dsimp only
  split
  · exact nofun
  · split
    · exact nofun
    · rename_i r hrow
      obtain rfl : id = r.id := Key.stored.inj (hkey.symm.trans ((hs.inOrder h).key r hrow))
      split
      · exact nofun
      · rw [run_bind, run_getRow hs.backend hworks]
        dsimp only
        split
        · split
          · exact nofun
          · exact nofun
        · exact nofun

/-- What a handle tells of itself, it tells once it was refreshed. The second refresh, which comes
with the question, changes nothing, as the handle was made current just now. -/
theorem run_map_telling {α β : Type} {s' : Situated σ} (hopen : s.table.closed = false)
    (hrun : (refresh h).run s = (.ok (), s')) (f : α → β) (q : Handle → α) :
    ((f <$> telling h q).run s).1 = .ok (f (q (s'.table.handle h))) := by
  have hopens : (ensureOpen : Action σ Unit).run s = (.ok (), s) := by
    rw [ensureOpen, run_ask, hopen]
    rfl
  have htells : (telling h q).run s = (.ok (q (s'.table.handle h)), s') := by
    rw [telling, current, run_bind, hopens]
    dsimp only
    rw [run_bind, hrun]
    rfl
  rw [map_eq_pure_bind, run_bind, htells]
  rfl

end Action

namespace Table.Refreshed

variable {t t' : Table}

/-- A handle that was refreshed has the row that is stored. Its copy was taken from the store now,
or it had the count of the store already and is what was stored then. Both come to the row that is
stored. -/
theorem row_eq (hr : t.Refreshed h (.ok ()) t') (hs : t.Sound) (hlt : t.writes < UInt64.size)
    (hc : t.Coherent) (hkey : (t.handle h).key = .stored id) :
    ∃ r, t.row? id = some r ∧ r.tag = (t.handle h).kind.tag ∧ (t'.handle h).row = some r ∧
      (t'.handle h).address = r.address := by
  have horder := hs.inOrder h
  cases hr with
  | ready hready =>
    obtain ⟨r, hrow, rfl⟩ := horder.exists_row hkey hready.live
    rcases hready.current with hnone | hseen
    · rw [hrow] at hnone
      cases hnone
    · exact ⟨r, (hc h).row?_eq hlt hrow hseen, horder.tag r hrow, hrow, horder.address r hrow⟩
  | @reloaded r row hlive hrow hstale hget htag =>
    obtain rfl : id = r.id := Key.stored.inj (hkey.symm.trans (horder.key r hrow))
    rw [handle_updateHandle_self t (lt_of_live hlive)]
    exact ⟨row, hget, htag.trans (horder.tag r hrow), rfl, rfl⟩

/-- Either the symbol is gone, or the store did not answer, and then nothing changed. These are the
only two kinds of refusal. -/
theorem state_or_store {fault : Fault} (hr : t.Refreshed h (.error fault) t') :
    (∃ cause, fault = .state cause) ∨ (∃ cause, fault = .store cause) ∧ t' = t := by
  cases hr with
  | vanished | deleted => exact .inl ⟨_, rfl⟩
  | failed cause => exact .inr ⟨⟨cause, rfl⟩, rfl⟩

/-- A handle that turns out to be gone stands for no row. Either there is no row under its id or one
of another kind. A stored symbol that is not marked deleted cannot be turned down for another
reason. -/
theorem lacks {cause : StateFault} (hr : t.Refreshed h (.error (.state cause)) t') (hs : t.Sound)
    (hkey : (t.handle h).key = .stored id) (hlive : (t.handle h).deleted = false) :
    t.Lacks id (t.handle h).kind.tag := by
  cases hr with
  | @vanished r _ hrow _ hgone =>
    obtain rfl : id = r.id := Key.stored.inj (hkey.symm.trans ((hs.inOrder h).key r hrow))
    intro row hget
    rw [← (hs.inOrder h).tag r hrow]
    exact hgone row hget
  | deleted hdeleted =>
    rw [hlive] at hdeleted
    cases hdeleted

end Table.Refreshed

/-! ## Coherence in runs -/

/-- What a query that asks for a column of a row is to answer. -/
def Query.column? (r : Row) : Query → Option (Reply HandleId)
  | .address => some (.address r.address)
  | .scope => some (.scope r.parent)
  | .isGlobal => some (.flag r.parent.isGlobal)
  | .provenance => some (.provenance r.provenance)
  | .data1 => some (.long r.data1)
  | .data2 => some (.int r.data2)
  | .data3 => some (.note r.data3)
  | _ => none

/-- Every move. -/
def Move.any (_nested : Bool) (_t : Table) (_m : Move) : Prop :=
  True

/-- Every move is permitted where every deed is allowed, which is how it is here. So whatever is
shown of runs of permitted moves is shown of all runs. -/
theorem Move.permitted_any (nested : Bool) (t : Table) (m : Move) (_h : Move.any nested t m) :
    m.Permitted (fun _ => True) t := by
  cases m with
  | edit h e => exact ⟨fun _ _ => trivial, fun _ _ _ _ => trivial⟩
  | _ => trivial

/-- The handle of a stored symbol agrees with the store. -/
structure Situated.Agrees (s : Situated σ) (h : HandleId) (id : SymbolId) : Prop where
  /-- A copy of the version at hand is the row that is stored. -/
  copy_eq : (s.table.handle h).seenAt = s.table.store.modificationCount →
    ∃ r, (s.table.handle h).row = some r ∧ s.table.row? id = some r ∧
      (s.table.handle h).address = r.address
  /-- Where the store answers, the symbol is there if a row of its kind is. -/
  valid_iff : s.table.store.outages s.clock .get (some id) = none →
    (((refresh h).run s).1 = .ok () ↔
      ∃ r, s.table.row? id = some r ∧ r.tag = (s.table.handle h).kind.tag)
  /-- What is asked of the symbol then is answered from that row. -/
  answer_eq : s.table.store.outages s.clock .get (some id) = none →
    ∀ r, s.table.row? id = some r → r.tag = (s.table.handle h).kind.tag →
      ∀ q reply, q.column? r = some reply → ((answer h q).run s).1 = .ok reply
  /-- Where the store does not answer, nothing changes. -/
  table_eq : ∀ fault, ((refresh h).run s).1 = .error (.store fault) →
    ((refresh h).run s).2.table = s.table
  /-- Whatever happens afterwards, the handle is only marked deleted where its row is gone. -/
  exists_mayDrop : ∀ s', Runs Move.any false s s' → (s'.table.handle h).deleted = true →
    ∃ t, Path (fun _ => True) s.table t ∧ Path (fun _ => True) t s'.table ∧ t.MayDrop h id

/-- A query for a column answers with that of the row that the handle has once it was refreshed. All
such queries are told from the copy, so one lemma does for each column, by cases on the query. -/
theorem Query.answer_of_column? (hopen : s.table.closed = false) {s' : Situated σ}
    (hrun : (refresh h).run s = (.ok (), s')) {r : Row} (hrow : (s'.table.handle h).row = some r)
    (haddress : (s'.table.handle h).address = r.address) {q : Query} {reply : Reply HandleId}
    (hq : q.column? r = some reply) : ((answer h q).run s).1 = .ok reply := by
  cases q with
  | address =>
    cases hq
    rw [← haddress]
    exact run_map_telling hopen hrun Reply.address (·.address)
  | scope | isGlobal | provenance | data1 | data2 | data3 =>
    cases hq
    refine (run_map_telling hopen hrun _ _).trans ?_
    simp [Handle.parent, Handle.provenance, Handle.data1, Handle.data2, Handle.data3, hrow]
  | _ => cases hq

/-- Where the store answers, a refresh succeeds if there is a row for the handle, which it has then.
The row has the kind of the handle, so the refresh does not turn it down, and it keeps what it was
told. -/
theorem Action.exists_run_refresh (hs : s.table.Sound) (hlt : s.table.writes < UInt64.size)
    (hc : s.table.Coherent) (hkey : (s.table.handle h).key = .stored id)
    (hlive : (s.table.handle h).deleted = false)
    (hworks : s.table.store.outages s.clock .get (some id) = none) {r : Row}
    (hget : s.table.row? id = some r) (htag : r.tag = (s.table.handle h).kind.tag) :
    ∃ s' : Situated σ, (refresh h).run s = (.ok (), s') ∧ (s'.table.handle h).row = some r ∧
      (s'.table.handle h).address = r.address := by
  have hr := ends_refresh hs h s rfl
  have hne := run_refresh_ne hs hkey hworks
  generalize (refresh h).run s = x at hr hne ⊢
  obtain ⟨answer, s'⟩ := x
  cases answer with
  | ok =>
    obtain ⟨row, hrow, -, hcopy, haddress⟩ := hr.row_eq hs hlt hc hkey
    cases hrow.symm.trans hget
    exact ⟨s', rfl, hcopy, haddress⟩
  | error fault =>
    rcases hr.state_or_store with ⟨cause, rfl⟩ | ⟨⟨fault, rfl⟩, -⟩
    · exact absurd htag (hr.lacks hs hkey hlive r hget)
    · exact absurd rfl (hne fault)

/-- A handle of a stored symbol that is not marked agrees with the store, at any moment, as long as
the handles are coherent. -/
theorem Situated.agrees (hs : s.table.Sound) (hopen : s.table.closed = false)
    (hlt : s.table.writes < UInt64.size) (hc : s.table.Coherent)
    (hkey : (s.table.handle h).key = .stored id) (hlive : (s.table.handle h).deleted = false) :
    s.Agrees h id where
  copy_eq hseen := by
    obtain ⟨r, hrow, rfl⟩ := (hs.inOrder h).exists_row hkey hlive
    exact ⟨r, hrow, (hc h).row?_eq hlt hrow hseen, (hs.inOrder h).address r hrow⟩
  valid_iff hworks := by
    constructor
    · intro hok
      have hr := ends_refresh hs h s rfl
      rw [hok] at hr
      obtain ⟨r, hrow, htag, -⟩ := hr.row_eq hs hlt hc hkey
      exact ⟨r, hrow, htag⟩
    · rintro ⟨r, hget, htag⟩
      obtain ⟨s', hrun, -⟩ := exists_run_refresh hs hlt hc hkey hlive hworks hget htag
      rw [hrun]
  answer_eq hworks r hget htag q reply hq := by
    obtain ⟨s', hrun, hrow, haddress⟩ := exists_run_refresh hs hlt hc hkey hlive hworks hget htag
    exact Query.answer_of_column? hopen hrun hrow haddress hq
  table_eq fault hfault := by
    have hr := ends_refresh hs h s rfl
    rw [hfault] at hr
    rcases hr.state_or_store with ⟨cause, heq⟩ | ⟨-, heq⟩
    · cases heq
    · exact heq
  exists_mayDrop s' hrun hdeleted :=
    Path.exists_mayDrop (hrun.path trivial Move.permitted_any hs) hs hkey hlive hdeleted

/-- **Handles agree with the store.** Whatever was done to a table since it was opened, by moves,
behind its back and by its listeners, and whatever calls of the store failed: a handle of a stored
symbol that is not marked deleted agrees with the store, as long as there were fewer than 2^64
writes. -/
theorem Runs.handles_agree {rules : Rules} {s₀ : Situated σ} (hnew : s₀.table.IsNew rules)
    (hrun : Runs Move.any false s₀ s) (hlt : s.table.writes < UInt64.size)
    (hkey : (s.table.handle h).key = .stored id) (hlive : (s.table.handle h).deleted = false) :
    s.Agrees h id := by
  have hpath := hrun.path trivial Move.permitted_any hnew.sound
  have hclosed : s.table.closed = false := hpath.sameFrame.closed.trans hnew.closed_eq
  exact Situated.agrees (hpath.sound hnew.sound) hclosed hlt
    (hpath.coherent hnew.sound hlt hnew.coherent) hkey hlive

/-- A label is created, and its row is changed behind the table's back. The handle agrees with what
was put, though its copy was current until then: the put is counted as a write. -/
theorem Runs.handles_agree_of_put :
    let id : SymbolId := ⟨1, by decide⟩
    let s₀ : Situated Unit := ⟨.empty default .standard, (), 0⟩
    let draft : Draft := ⟨"start", .label, .ram 16, .global, .userDefined, 0, 0, none⟩
    let s₁ := ((Move.create draft).action Listener.idle).run s₀ |>.2
    let s₂ := ((Move.put { draft.row id with data1 := 7 }).action Listener.idle).run s₁ |>.2
    s₀.table.IsNew .standard ∧ Runs Move.any false s₀ s₂ ∧ s₂.table.writes < UInt64.size ∧
      (s₂.table.handle 0).key = .stored id ∧ (s₂.table.handle 0).deleted = false ∧
      s₂.Agrees 0 id := by
  intro id s₀ draft s₁ s₂
  have hnew : s₀.table.IsNew .standard := .memory _ _ _
  have hrun : Runs Move.any false s₀ s₂ := .move (.move .refl trivial .idle) trivial .idle
  have hlt : s₂.table.writes < UInt64.size := by decide
  have hkey : (s₂.table.handle 0).key = .stored id := by decide
  have hlive : (s₂.table.handle 0).deleted = false := by decide
  exact ⟨hnew, hrun, hlt, hkey, hlive, Runs.handles_agree hnew hrun hlt hkey hlive⟩

end SymbolTable
