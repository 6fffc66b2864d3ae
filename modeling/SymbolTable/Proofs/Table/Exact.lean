import SymbolTable.Proofs.Table.Step

/-!
# Exact tables

As long as nobody changes rows behind a table's back, moves derived symbols or has drawn all ids,
the table knows everything about its rows: the pool finds the live handles and no others, each
handle with a row has the one that is stored, and the row of a handle that is marked deleted is gone
and never comes back, because ids are not drawn twice. Such a table is `Exact`, and stays so by
every other step (`Step.exact`).
-/

namespace SymbolTable.Table

variable {t t' : Table} {may : Deed → Prop}

/-- The pool finds the handles that are not marked deleted, each by its key. -/
def Pooled (t : Table) : Prop :=
  ∀ key h, t.pool.get? key = some h ↔ (t.handle h).deleted = false ∧ (t.handle h).key = key

/-- What a handle says is what is stored. -/
structure Mirrors (t : Table) (s : Handle) : Prop where
  row : ∀ r, s.row = some r → t.row? r.id = some r
  le_drawn : ∀ id, s.key = .stored id → id.val.toNat ≤ t.drawn
  gone : ∀ id, s.key = .stored id → s.deleted = true → t.row? id = none

/-- The table knows everything about its rows. -/
structure Exact (t : Table) : Prop where
  pooled : t.Pooled
  le_drawn : ∀ r ∈ t.rows, r.id.val.toNat ≤ t.drawn
  mirrors : ∀ h, t.Mirrors (t.handle h)

/-! ## The pool -/

namespace Pooled

variable (hp : t.Pooled)

include hp

/-- Live handles are told apart by their keys. The pool has one handle for each key, and every live
handle is in it. -/
theorem eq_of_key {h k : HandleId} (hlive : (t.handle h).deleted = false)
    (hlive' : (t.handle k).deleted = false) (hkey : (t.handle k).key = (t.handle h).key) : k = h := by
  have hh : t.pool.get? (t.handle h).key = some h := (hp _ h).2 ⟨hlive, rfl⟩
  have hk : t.pool.get? (t.handle h).key = some k := (hp _ k).2 ⟨hlive', hkey⟩
  rw [hh] at hk
  exact (Option.some.inj hk).symm

/-- A handle that keeps its key and whether it is deleted. The pool is not touched by it, so what
was found is found. -/
theorem updateHandle {h : HandleId} {f : Handle → Handle}
    (hkey : (f (t.handle h)).key = (t.handle h).key)
    (hdeleted : (f (t.handle h)).deleted = (t.handle h).deleted) : (t.updateHandle h f).Pooled := by
  intro key k
  rcases t.handle_updateHandle_or h f k with heq | ⟨rfl, heq⟩
  · rw [heq]
    exact hp key k
  · rw [heq, hkey, hdeleted]
    exact hp key k

/-- A new handle under a key that was free. Since the key was free, no other handle has it, and
everything else is found as before. -/
theorem adopt {s : Handle} {key : Key} (hfree : t.pool.get? key = none) (hlive : s.deleted = false)
    (hkey : s.key = key) : (t.adopt key s).Pooled := by
  intro key' k
  show (t.pool.insert key t.handles.length).get? key' = some k ↔ _
  rw [Dict.get?_insert, handle_adopt]
  rcases eq_or_ne k t.handles.length with rfl | hk
  · have hbeyond : t.pool.get? key' ≠ some t.handles.length := by
      intro hget
      exact Nat.lt_irrefl _ (lt_of_live ((hp key' _).1 hget).1)
    rw [if_pos rfl, hlive, hkey]
    rcases eq_or_ne key' key with rfl | hne
    · simp
    · simp [hne, hne.symm, hbeyond]
  · rw [if_neg hk]
    rcases eq_or_ne key' key with rfl | hne
    · rw [if_pos rfl, ← hp, hfree]
      simp [hk.symm]
    · rw [if_neg hne]
      exact hp key' k

/-- The handle under a key is marked deleted. No other handle may be found under the key, or it
would be lost. What the handle is otherwise does not matter. -/
theorem erase {h : HandleId} {key : Key} (hkey : (t.handle h).key = key)
    (honly : ∀ k, t.pool.get? key = some k → k = h) :
    Pooled { t.updateHandle h (·.invalidated) with pool := t.pool.erase key } := by
  intro key' k
  show (t.pool.erase key).get? key' = some k ↔ _
  rw [handle_withPool, Dict.get?_erase, handle_invalidate]
  rcases eq_or_ne k h with rfl | hk
  · rw [if_pos rfl]
    constructor
    · intro hget
      split at hget
      · cases hget
      · rename_i hne
        obtain ⟨-, hkey'⟩ := (hp key' k).1 hget
        exact absurd (hkey'.symm.trans hkey) hne
    · rintro ⟨hlive, -⟩
      cases hlive
  · rw [if_neg hk, ← hp]
    split
    · rename_i heq
      rw [heq]
      constructor
      · intro hget
        cases hget
      · intro hget
        exact absurd (honly k hget) hk
    · exact Iff.rfl

/-- A live handle that is marked deleted leaves the pool, and the others are found as before. As it
is live, its key is its own. -/
theorem evict {h : HandleId} (hlive : (t.handle h).deleted = false) :
    (t.abandon h (t.handle h).key).Pooled := by
  have hget := (hp _ h).2 ⟨hlive, rfl⟩
  have hpool : t.pool.evict (t.handle h).key h = t.pool.erase (t.handle h).key := if_pos hget
  unfold abandon
  rw [hpool]
  refine hp.erase rfl ?_
  intro k hk
  rw [hget] at hk
  exact (Option.some.inj hk).symm

/-- The symbol derived from an address leaves the pool, if there is one, as happens when a row comes
to lie there. Its handle is that of its key and is not marked deleted, so to drop it is to take out
the one pair with this key. -/
theorem dropDerived (a : Address) : (t.dropDerived a).Pooled := by
  unfold Table.dropDerived
  split
  · rename_i h hget
    obtain ⟨hlive, hkey⟩ := (hp _ h).1 hget
    rw [← hkey]
    exact hp.evict hlive
  · exact hp

/-- A handle gets another key, which was free. The old key is free after that, and the new one has
to be, or the handle that had it would be lost in the pool. This is where exactness can fail when
derived symbols are moved. -/
theorem rekey {h : HandleId} {f : Handle → Handle} {key : Key}
    (hlive : (t.handle h).deleted = false) (hkey : (f (t.handle h)).key = key)
    (hdeleted : (f (t.handle h)).deleted = false) (hfree : t.pool.get? key = none) (j : Journal) :
    Pooled { t.updateHandle h f with pool := t.pool.rekey (t.handle h).key key, journal := j } := by
  intro key' k
  show (t.pool.rekey (t.handle h).key key).get? key' = some k ↔
    ((t.updateHandle h f).handle k).deleted = false ∧ ((t.updateHandle h f).handle k).key = key'
  have hget := (hp _ h).2 ⟨hlive, rfl⟩
  rw [Dict.get?_rekey _ hget, handle_updateHandle _ (lt_of_live hlive)]
  rcases eq_or_ne k h with rfl | hk
  · rw [if_pos rfl, hdeleted, hkey]
    rcases eq_or_ne key' key with rfl | hne
    · simp
    · rw [if_neg hne]
      constructor
      · intro hget'
        split at hget'
        · cases hget'
        · rename_i hold
          exact absurd ((hp _ k).1 hget').2.symm hold
      · rintro ⟨-, rfl⟩
        exact absurd rfl hne
  · rw [if_neg hk, ← hp]
    rcases eq_or_ne key' key with rfl | hne
    · simp [hfree, hk.symm]
    · rcases eq_or_ne key' (t.handle h).key with rfl | hold
      · simp [hget, hk.symm]
      · simp [hne, hold]

end Pooled

/-! ## Handles and rows -/

namespace Mirrors

variable {s : Handle}

/-- A derived symbol has nothing to mirror: it has no row, and no id for which there might be
one. -/
theorem of_derived (hkey : ∀ id, s.key ≠ .stored id) (hrow : s.row = none) : t.Mirrors s := by
  constructor <;> simp [hkey, hrow]

/-- A handle mirrors the row that is stored under its id. The id has been drawn already, so no fresh
row will take its place. -/
theorem of_row {r : Row} (hrow : s.row = some r) (hkey : s.key = .stored r.id)
    (hlive : s.deleted = false) (hget : t.row? r.id = some r) (hle : r.id.val.toNat ≤ t.drawn) :
    t.Mirrors s := by
  refine ⟨?_, ?_, ?_⟩
  · intro x hx
    rw [hrow] at hx
    cases hx
    exact hget
  · intro id hid
    rw [hkey] at hid
    cases hid
    exact hle
  · intro id _ hdeleted
    rw [hlive] at hdeleted
    cases hdeleted

/-- Whether a handle mirrors the table depends on the rows and on how many ids were drawn. More of
them may be drawn. -/
theorem congr (h : t.Mirrors s) (hrows : t'.rows = t.rows) (hle : t.drawn ≤ t'.drawn) :
    t'.Mirrors s := by
  refine ⟨?_, ?_, ?_⟩
  · intro r hr
    rw [row?_congr hrows]
    exact h.row r hr
  · intro id hid
    exact Nat.le_trans (h.le_drawn id hid) hle
  · intro id hid hdeleted
    rw [row?_congr hrows]
    exact h.gone id hid hdeleted

end Mirrors

/-! ## Steps -/

/-- What goes on beside rows and handles keeps a table exact. Rows, handles, pool and draws are the
same, and exactness speaks of nothing else. -/
theorem Beside.exact (h : t.Beside t') (he : t.Exact) : t'.Exact := by
  refine ⟨fun key k => ?_, ?_, fun k => ?_⟩
  · rw [h.pool, h.handle]
    exact he.pooled key k
  · rw [h.rows_eq, h.drawn_eq]
    exact he.le_drawn
  · rw [h.handle]
    exact (he.mirrors k).congr h.rows_eq (Nat.le_of_eq h.drawn_eq.symm)

namespace Exact

variable (he : t.Exact)

include he

/-- No handle in the pool has an id that is still to be drawn. So a fresh row finds its key free.
The ids of handles were all drawn before. -/
theorem pool_get?_eq_none_of_lt {id : SymbolId} (hlt : t.drawn < id.val.toNat) :
    t.pool.get? (.stored id) = none := by
  cases hget : t.pool.get? (.stored id) with
  | none => rfl
  | some h =>
    have hle := (he.mirrors h).le_drawn id ((he.pooled _ h).1 hget).2
    omega

/-- Which rows there are matters to the handles as far as they mirror them. -/
theorem withBackend {b : Store.Backend} (hle : ∀ r ∈ b.rows, r.id.val.toNat ≤ b.drawn)
    (hmirrors : ∀ h, (t.withBackend b).Mirrors (t.handle h)) : (t.withBackend b).Exact :=
  ⟨he.pooled, hle, hmirrors⟩

/-- An id that is drawn for nothing keeps a table exact: no row has it, and it will not be drawn
again. -/
theorem draw (hs : t.Sound) : (t.withBackend t.store.backend.allocate.2).Exact := by
  refine he.withBackend ?_ fun h => (he.mirrors h).congr hs.rows_draw hs.drawn_draw
  intro r hr
  have hr : r ∈ (t.withBackend t.store.backend.allocate.2).rows := hr
  rw [hs.rows_draw] at hr
  exact Nat.le_trans (he.le_drawn r hr) hs.drawn_draw

/-- A fresh row is stored. Its id was never drawn before, so no handle has it, live or deleted, and
no handle mirrors another row than before. -/
theorem stores {row : Row} {b : Store.Backend} (hs : t.Sound) (hstores : t.Stores row b)
    (hlt : b.drawn < UInt64.size - 1) : (t.withBackend b).Exact := by
  obtain ⟨hid, hdrawn⟩ := hstores.id_eq hs hlt
  have hrow? := hstores.row? hs
  refine he.withBackend ?_ fun h => ⟨?_, ?_, ?_⟩
  · intro r hr
    rcases (hstores.mem_rows hs r).1 hr with rfl | ⟨hr, -⟩
    · omega
    · have := he.le_drawn r hr
      omega
  · intro r hr
    have hget := (he.mirrors h).row r hr
    rw [hrow?, if_neg (hstores.ne_id hs hlt (he.le_drawn r (mem_of_row? hget))), hget]
  · intro id hkey
    exact Nat.le_trans ((he.mirrors h).le_drawn id hkey) (hstores.drawn_le hs)
  · intro id hkey hdeleted
    rw [hrow?, if_neg (hstores.ne_id hs hlt ((he.mirrors h).le_drawn id hkey))]
    exact (he.mirrors h).gone id hkey hdeleted

/-- Whatever becomes of the handles, the rows being the same. The pool and the copies have to be
shown again, while the bound on the ids stays. -/
theorem of_mirrors (hbackend : t'.store.backend = t.store.backend) (hpooled : t'.Pooled)
    (hmirrors : ∀ k, t.Mirrors (t'.handle k)) : t'.Exact where
  pooled := hpooled
  le_drawn := by
    rw [Table.rows, Table.drawn, hbackend]
    exact he.le_drawn
  mirrors k := (hmirrors k).congr (congrArg Store.Backend.rows hbackend)
    (Nat.le_of_eq (congrArg Store.Backend.drawn hbackend.symm))

/-- A handle is added to an exact table. It has to be live, mirror the table, and come under a key
that was free. -/
theorem adopt {s : Handle} {key : Key} (hfree : t.pool.get? key = none) (hlive : s.deleted = false)
    (hkey : s.key = key) (hs : t.Mirrors s) : (t.adopt key s).Exact :=
  he.of_mirrors rfl (he.pooled.adopt hfree hlive hkey) (forall_adopt he.mirrors key hs)

/-- A derived symbol is no longer found. It has no row that anybody could mirror, and its handle, if
there was one, is marked deleted. -/
theorem dropDerived (a : Address) : (t.dropDerived a).Exact := by
  refine he.of_mirrors (congrArg Store.backend (store_dropDerived t a)) (he.pooled.dropDerived a) fun k => ?_
  rw [handle_dropDerived]
  split
  · rename_i hget
    have hkey : (t.handle k).key = .derived a := ((he.pooled _ k).1 hget).2
    refine .of_derived ?_ rfl
    intro id hid
    rw [Handle.invalidated, hkey] at hid
    cases hid
  · exact he.mirrors k

/-- A handle changes, but neither its key nor whether it is deleted. What it mirrors then is
premised for the new value. -/
theorem updateHandle {h : HandleId} {f : Handle → Handle}
    (hkey : (f (t.handle h)).key = (t.handle h).key)
    (hdeleted : (f (t.handle h)).deleted = (t.handle h).deleted)
    (hf : t.Mirrors (f (t.handle h))) : (t.updateHandle h f).Exact :=
  he.of_mirrors rfl (he.pooled.updateHandle hkey hdeleted) (forall_updateHandle he.mirrors hf)

/-- A handle of a stored symbol is the only one with its row. -/
theorem eq_of_row (hs : t.Sound) {h k : HandleId} {r x : Row} (hrow : (t.handle h).row = some r)
    (hx : (t.handle k).row = some x) (hid : x.id = r.id) : k = h := by
  refine he.pooled.eq_of_key ((hs.inOrder h).live r hrow) ((hs.inOrder k).live x hx) ?_
  rw [(hs.inOrder h).key r hrow, (hs.inOrder k).key x hx, hid]

/-- No two handles have the id of a row that is there: neither of them is marked deleted. A handle
that is marked deleted has an id whose row is gone. -/
theorem eq_of_stored {h k : HandleId} {id : SymbolId} (hh : (t.handle h).key = .stored id)
    (hk : (t.handle k).key = .stored id) (hrow : t.row? id ≠ none) : k = h := by
  have hlive {k : HandleId} (hk : (t.handle k).key = .stored id) : (t.handle k).deleted = false :=
    Bool.eq_false_iff.2 fun hdeleted => hrow ((he.mirrors k).gone id hk hdeleted)
  exact he.pooled.eq_of_key (hlive hh) (hlive hk) (hk.trans hh.symm)

/-- The row of a handle is edited. It gets the row that was put, as a copy that is current, and no
other handle has the id of the row. -/
theorem edit {h : HandleId} {r r' : Row} {b : Store.Backend} (hs : t.Sound)
    (hrow : (t.handle h).row = some r) (hid : r'.id = r.id) (hputs : t.store.backend.Puts r' b) :
    ((t.withBackend b).updateHandle h
      (·.refreshed r' (t.withBackend b).store.modificationCount)).Exact := by
  have hlive := (hs.inOrder h).live r hrow
  have hkey := (hs.inOrder h).key r hrow
  have hget := (he.mirrors h).row r hrow
  have hle := he.le_drawn r (mem_of_row? hget)
  have hrow? := row?_puts hs.backend hputs
  have hdrawn : (t.withBackend b).drawn = t.drawn := hputs.drawn
  rw [← hid] at hkey hget hle
  refine ⟨Pooled.updateHandle (t := t.withBackend b) he.pooled rfl rfl, ?_, fun k => ?_⟩
  · intro x hx
    show x.id.val.toNat ≤ b.drawn
    rw [hputs.drawn]
    rcases (hputs.mem_rows x).1 hx with rfl | ⟨hx, -⟩
    · exact hle
    · exact he.le_drawn x hx
  · refine Mirrors.congr (t := t.withBackend b) ?_ rfl (Nat.le_refl _)
    rw [handle_updateHandle_withBackend, handle_updateHandle t (lt_of_row hrow)]
    rw [← hdrawn] at hle
    split
    · refine .of_row rfl hkey hlive ?_ hle
      rw [hrow?, if_pos rfl]
    · rename_i hk
      refine ⟨?_, ?_, ?_⟩
      · intro x hx
        have hne : x.id ≠ r'.id := fun heq => hk (he.eq_of_row hs hrow hx (heq.trans hid))
        rw [hrow?, if_neg hne]
        exact (he.mirrors k).row x hx
      · intro id hid
        rw [hdrawn]
        exact (he.mirrors k).le_drawn id hid
      · intro id hid hdeleted
        have hgone := (he.mirrors k).gone id hid hdeleted
        have hne : id ≠ r'.id := by
          rintro rfl
          rw [hget] at hgone
          cases hgone
        rw [hrow?, if_neg hne, hgone]

/-- The row of a symbol is taken out. The handle is marked deleted along with it, and leaves the
pool, so that nobody is found for a row that is gone. -/
theorem takeOut {h : HandleId} {id : SymbolId} {b : Store.Backend} (hs : t.Sound)
    (hkey : (t.handle h).key = .stored id) (hremoves : t.store.backend.Removes id b) :
    ((t.withBackend b).release h id).Exact := by
  have hrow? := row?_removes hs.backend hremoves
  have honly : ∀ k, t.pool.get? (.stored id) = some k → k = h := by
    intro k hk
    obtain ⟨hlive, hkey'⟩ := (he.pooled _ k).1 hk
    obtain ⟨r, hrow, rfl⟩ := (hs.inOrder k).exists_row hkey' hlive
    cases hdeleted : (t.handle h).deleted with
    | false => exact he.pooled.eq_of_key hdeleted hlive (hkey'.trans hkey.symm)
    | true =>
      have hgone := (he.mirrors h).gone _ hkey hdeleted
      rw [(he.mirrors k).row r hrow] at hgone
      cases hgone
  have hle : ∀ k id', (t.handle k).key = .stored id' → id'.val.toNat ≤ b.drawn := by
    intro k id' hkey'
    rw [hremoves.drawn]
    exact (he.mirrors k).le_drawn id' hkey'
  refine ⟨Pooled.erase (t := t.withBackend b) he.pooled hkey honly, ?_, fun k => ?_⟩
  · intro x hx
    show x.id.val.toNat ≤ b.drawn
    rw [hremoves.drawn]
    exact he.le_drawn x ((hremoves.mem_rows x).1 hx).1
  · refine Mirrors.congr (t := t.withBackend b) ?_ rfl (Nat.le_refl _)
    rw [handle_release, handle_updateHandle_withBackend, handle_invalidate]
    split
    · refine ⟨nofun, hle h, ?_⟩
      intro id' hkey' _
      rw [Handle.invalidated, hkey] at hkey'
      rw [hrow?, if_pos (Key.stored.inj hkey').symm]
    · rename_i hk
      refine ⟨?_, hle k, ?_⟩
      · intro x hx
        have hne : x.id ≠ id := by
          rintro rfl
          exact hk (honly k ((he.pooled _ k).2 ⟨(hs.inOrder k).live x hx, (hs.inOrder k).key x hx⟩))
        rw [hrow?, if_neg hne]
        exact (he.mirrors k).row x hx
      · intro id' hkey' hdeleted
        rw [hrow?]
        split
        · rfl
        · exact (he.mirrors k).gone id' hkey' hdeleted

end Exact

/-- Every step but the relocation of a derived symbol and the change of a row behind the table's
back keeps a table exact. The proof goes through the steps and cites one of the lemmas above for
each. Where a step may write, there have to be ids left, since a fresh row must not come under an id
that a handle has. -/
theorem Step.exact (h : Step may t t') (hrelocate : ¬ may .relocate) (hintrude : ¬ may .intrude)
    (hs : t.Sound) (hlt : may .write → t'.drawn < UInt64.size - 1) (he : t.Exact) : t'.Exact := by
  cases h with
  | aside h => exact h.exact he
  | plan => exact he.of_mirrors rfl he.pooled he.mirrors
  | adopt s hpool hnew =>
    rcases hnew with ⟨id, r, hrow, hofRow⟩ | ⟨a, rfl⟩
    · obtain ⟨k, -, rfl⟩ := Handle.eq_of_ofRow hofRow
      obtain rfl : r.id = id := id_of_row? hrow
      exact he.adopt hpool rfl rfl (.of_row rfl rfl rfl hrow (he.le_drawn r (mem_of_row? hrow)))
    · exact he.adopt hpool rfl rfl (.of_derived nofun rfl)
  | @refresh h r row hlive hrow hstale hget =>
    cases hget.symm.trans ((he.mirrors h).row r hrow)
    refine he.updateHandle rfl rfl ?_
    exact .of_row rfl ((hs.inOrder h).key r hrow) hlive hget (he.le_drawn r (mem_of_row? hget))
  | vanish h hlive hrow hstale hgone =>
    exact absurd rfl (hgone _ ((he.mirrors h).row _ hrow))
  | draw => exact he.draw hs
  | @insert hmay k row b htag hstores =>
    have hb := hlt hmay
    rw [drawn_withFresh] at hb
    exact (he.stores hs hstores hb).dropDerived row.address
  | @create hmay k row b s htag hstores hparent hnew =>
    have hb : (t.withFresh row b).drawn < UInt64.size - 1 := hlt hmay
    rw [drawn_withFresh] at hb
    obtain ⟨hid, hdrawn⟩ := hstores.id_eq hs hb
    obtain ⟨k, -, rfl⟩ := Handle.eq_of_ofRow hnew
    have he₁ := (he.stores hs hstores hb).dropDerived row.address
    have hget := hstores.row?_withFresh
    refine he₁.adopt ?_ rfl rfl (.of_row rfl rfl rfl hget (he₁.le_drawn row (mem_of_row? hget)))
    rw [pool_dropDerived, if_neg nofun]
    exact he.pool_get?_eq_none_of_lt (by omega)
  | @promote hmay h row b hlive hrow htag haddress hstores =>
    obtain ⟨hid, hdrawn⟩ := hstores.id_eq hs (hlt hmay)
    have he₁ := he.stores hs hstores (hlt hmay)
    have hget : (t.withBackend b).row? row.id = some row := row?_self_of_puts hstores.puts
    have hfree : t.pool.get? (.stored row.id) = none := he.pool_get?_eq_none_of_lt (by omega)
    have hpooled := Pooled.rekey (t := t.withBackend b) he₁.pooled (h := h)
      (f := (·.promoted row (t.withBackend b).store.modificationCount)) hlive rfl hlive hfree
    refine he₁.of_mirrors rfl (hpooled _) fun k => ?_
    rw [handle_embody]
    exact forall_updateHandle he₁.mirrors
      (.of_row rfl rfl hlive hget (he₁.le_drawn row (mem_of_row? hget))) k
  | edit h hrow hedits hputs => exact he.edit hs hrow hedits.id_eq hputs
  | mark hmay h deleting =>
    have hm := he.mirrors h
    exact he.updateHandle rfl rfl ⟨hm.row, hm.le_drawn, hm.gone⟩
  | takeOut hmay h hkey hremoves => exact he.takeOut hs hkey hremoves
  | relocate hmay => exact absurd hmay hrelocate
  | intrudePut hmay | intrudeTake hmay => exact absurd hmay hintrude

/-- An exact table stays exact along any steps, by induction on them, under the same three
conditions as for one step: no derived symbol is moved, nobody writes from outside, and ids
remain. -/
theorem Path.exact (h : Path may t t') (hrelocate : ¬ may .relocate) (hintrude : ¬ may .intrude)
    (hs : t.Sound) (hlt : may .write → t'.drawn < UInt64.size - 1) (he : t.Exact) : t'.Exact := by
  induction h with
  | refl => exact he
  | tail hpath hstep ih =>
    have hs := Path.sound hpath hs
    have hle := hstep.drawn_le hs
    exact hstep.exact hrelocate hintrude hs hlt (ih fun hmay => Nat.lt_of_le_of_lt hle (hlt hmay))

/-! ## Rows that stay, and rows that do not come back -/

/-- Steps that take no row out keep the rows under their ids, with their kinds, and where they are
unless one gets another address. -/
theorem Step.exists_row? (h : Step may t t') (hremove : ¬ may .remove) (hintrude : ¬ may .intrude)
    (hs : t.Sound) (hlt : may .write → t'.drawn < UInt64.size - 1) (he : t.Exact) {id : SymbolId} {r : Row}
    (hrow : t.row? id = some r) :
    ∃ r', t'.row? id = some r' ∧ r'.tag = r.tag ∧ (¬ may .readdress → r'.address = r.address) := by
  have hsame (hrows : t'.rows = t.rows) :
      ∃ r', t'.row? id = some r' ∧ r'.tag = r.tag ∧ (¬ may .readdress → r'.address = r.address) :=
    ⟨r, (row?_congr hrows id).trans hrow, rfl, fun _ => rfl⟩
  -- a fresh row is not stored under the id of another one
  have hfresh {row : Row} {b : Store.Backend} (hstores : t.Stores row b) (hb : b.drawn < UInt64.size - 1)
      (hrows : t'.rows = b.rows) :
      ∃ r', t'.row? id = some r' ∧ r'.tag = r.tag ∧ (¬ may .readdress → r'.address = r.address) := by
    have hle := he.le_drawn r (mem_of_row? hrow)
    rw [id_of_row? hrow] at hle
    refine ⟨r, ?_, rfl, fun _ => rfl⟩
    rw [row?_congr (t := t.withBackend b) hrows, hstores.row? hs, if_neg (hstores.ne_id hs hb hle), hrow]
  cases h with
  | aside h => exact hsame h.rows_eq
  | plan | adopt | refresh | vanish | relocate => exact hsame rfl
  | draw => exact hsame hs.rows_draw
  | @insert hmay k row b htag hstores | @create hmay k row b s htag hstores =>
    have hb : (t.withFresh row b).drawn < UInt64.size - 1 := hlt hmay
    rw [drawn_withFresh] at hb
    exact hfresh hstores hb (rows_withFresh t row b)
  | promote hmay h hlive hnone htag haddress hstores => exact hfresh hstores (hlt hmay) rfl
  | @edit h x x' b hx hedits hputs =>
    have hget := (he.mirrors h).row x hx
    by_cases hid : id = x'.id
    · subst hid
      rw [hedits.id_eq] at hrow
      cases hget.symm.trans hrow
      exact ⟨x', (row?_puts hs.backend hputs _).trans (if_pos rfl), hedits.tag_eq, hedits.address_eq⟩
    · exact ⟨r, (row?_puts hs.backend hputs _).trans ((if_neg hid).trans hrow), rfl, fun _ => rfl⟩
  | mark hmay | takeOut hmay => exact absurd hmay hremove
  | intrudePut hmay | intrudeTake hmay => exact absurd hmay hintrude

/-- Over any number of steps that take no row out, a row stays under its id, with its kind, and at
its address where none is readdressed. -/
theorem Path.exists_row? (h : Path may t t') (hremove : ¬ may .remove) (hintrude : ¬ may .intrude)
    (hrelocate : ¬ may .relocate) (hs : t.Sound) (hlt : may .write → t'.drawn < UInt64.size - 1)
    (he : t.Exact) {id : SymbolId} {r : Row} (hrow : t.row? id = some r) :
    ∃ r', t'.row? id = some r' ∧ r'.tag = r.tag ∧ (¬ may .readdress → r'.address = r.address) := by
  induction h with
  | refl => exact ⟨r, hrow, rfl, fun _ => rfl⟩
  | tail hpath hstep ih =>
    have hs₁ := Path.sound hpath hs
    have hlt₁ := fun hmay => Nat.lt_of_le_of_lt (hstep.drawn_le hs₁) (hlt hmay)
    obtain ⟨x, hx, htag, haddress⟩ := ih hlt₁
    have he₁ := Path.exact hpath hrelocate hintrude hs hlt₁ he
    obtain ⟨y, hy, htag', haddress'⟩ := hstep.exists_row? hremove hintrude hs₁ hlt he₁ hx
    exact ⟨y, hy, htag'.trans htag, fun hr => (haddress' hr).trans (haddress hr)⟩

/-- A row that is gone does not come back. Only the fresh row of a write could come under the id,
and its id was not drawn before, whereas this one was. -/
theorem Step.row?_eq_none (h : Step may t t') (hintrude : ¬ may .intrude) (hs : t.Sound)
    (hlt : may .write → t'.drawn < UInt64.size - 1) (he : t.Exact) {id : SymbolId}
    (hle : id.val.toNat ≤ t.drawn) (hnone : t.row? id = none) : t'.row? id = none := by
  have hsame (hrows : t'.rows = t.rows) : t'.row? id = none := (row?_congr hrows id).trans hnone
  have hfresh {row : Row} {b : Store.Backend} (hstores : t.Stores row b) (hb : b.drawn < UInt64.size - 1)
      (hrows : t'.rows = b.rows) : t'.row? id = none := by
    rw [row?_congr (t := t.withBackend b) hrows, hstores.row? hs, if_neg (hstores.ne_id hs hb hle), hnone]
  cases h with
  | aside h => exact hsame h.rows_eq
  | plan | adopt | refresh | vanish | relocate | mark => exact hsame rfl
  | draw => exact hsame hs.rows_draw
  | @insert hmay k row b htag hstores | @create hmay k row b s htag hstores =>
    have hb : (t.withFresh row b).drawn < UInt64.size - 1 := hlt hmay
    rw [drawn_withFresh] at hb
    exact hfresh hstores hb (rows_withFresh t row b)
  | promote hmay h hlive hrow htag haddress hstores => exact hfresh hstores (hlt hmay) rfl
  | @edit h x x' b hx hedits hputs =>
    have hget := (he.mirrors h).row x hx
    have hne : id ≠ x'.id := by
      rintro rfl
      rw [hedits.id_eq, hget] at hnone
      cases hnone
    exact (row?_puts hs.backend hputs _).trans ((if_neg hne).trans hnone)
  | takeOut hmay h hkey hremoves =>
    refine (row?_removes hs.backend hremoves id).trans ?_
    rw [hnone, ite_self]
  | intrudePut hmay | intrudeTake hmay => exact absurd hmay hintrude

/-- A row that is gone stays gone over any number of steps. This is what makes an id a name for one
symbol for good. -/
theorem Path.row?_eq_none (h : Path may t t') (hintrude : ¬ may .intrude) (hrelocate : ¬ may .relocate)
    (hs : t.Sound) (hlt : may .write → t'.drawn < UInt64.size - 1) (he : t.Exact) {id : SymbolId}
    (hle : id.val.toNat ≤ t.drawn) (hnone : t.row? id = none) : t'.row? id = none := by
  induction h with
  | refl => exact hnone
  | tail hpath hstep ih =>
    have hs₁ := Path.sound hpath hs
    have hlt₁ := fun hmay => Nat.lt_of_le_of_lt (hstep.drawn_le hs₁) (hlt hmay)
    have he₁ := Path.exact hpath hrelocate hintrude hs hlt₁ he
    have hle₁ := Nat.le_trans hle (Path.drawn_le hpath hs)
    exact hstep.row?_eq_none hintrude hs₁ hlt he₁ hle₁ (ih hlt₁)

end SymbolTable.Table
