import SymbolTable.Proofs.Table.Exact

/-!
# The pool behind changed rows

Where rows are changed behind a table's back, its pool is not exact: it may find a symbol whose row
is gone, and a handle may be live that is no longer found. But whatever it finds is not marked
deleted and has the key under which it is found, and a derived symbol is found as long as it is
there (`Table.Pools`). That depends on the handles alone, so rows and ids may come and go. Only a
derived symbol that is moved may take the place of another one; every other step keeps it
(`Step.pools`).
-/

namespace SymbolTable.Table

variable {t t' : Table} {may : Deed → Prop} {h k : HandleId} {key : Key}

/-- What is found is there, and derived symbols are found. -/
structure Pools (t : Table) : Prop where
  found : ∀ key h, t.pool.get? key = some h → (t.handle h).deleted = false ∧ (t.handle h).key = key
  derived : ∀ h, (t.handle h).isDerived = true → t.pool.get? (t.handle h).key = some h

/-- An exact pool finds all live handles, the derived ones among them. -/
theorem Pooled.pools (hp : t.Pooled) : t.Pools :=
  ⟨fun key h => (hp key h).1, fun h hderived => (hp _ h).2 ⟨(Handle.isDerived_iff.1 hderived).2, rfl⟩⟩

/-- A derived symbol is not found by an id. Its key is that of its address, as handles are in
order. -/
theorem Sound.key_ne_stored (hs : t.Sound) (hk : (t.handle k).isDerived = true) (id : SymbolId) :
    (t.handle k).key ≠ .stored id := by
  obtain ⟨hrow, hlive⟩ := Handle.isDerived_iff.1 hk
  rw [((hs.inOrder k).derived hlive hrow).1]
  nofun

namespace Pools

variable (hp : t.Pools)

include hp

/-- Whether the pool finds nothing wrong depends on the pool and the handles. So it is the same when
rows or settings change. -/
theorem congr (hpool : t'.pool = t.pool) (hhandles : t'.handles = t.handles) : t'.Pools := by
  have hhandle : ∀ k, t'.handle k = t.handle k := fun k => by rw [handle, handle, hhandles]
  refine ⟨fun key k => ?_, fun k => ?_⟩
  · rw [hpool, hhandle]
    exact hp.found key k
  · rw [hpool, hhandle]
    exact hp.derived k

/-- A handle keeps its key and whether it is deleted, and does not become derived. It may be derived
no more, but then it is found by another key, under which it is put by the one who changes it. -/
theorem updateHandle {f : Handle → Handle} (hkey : (f (t.handle h)).key = (t.handle h).key)
    (hdeleted : (f (t.handle h)).deleted = (t.handle h).deleted)
    (hderived : (f (t.handle h)).isDerived = true → (t.handle h).isDerived = true) :
    (t.updateHandle h f).Pools := by
  refine ⟨fun key k => ?_, fun k => ?_⟩
  · rw [map_updateHandle Handle.deleted hdeleted, map_updateHandle Handle.key hkey]
    exact hp.found key k
  · rw [map_updateHandle Handle.key hkey]
    rcases t.handle_updateHandle_or h f k with heq | ⟨rfl, heq⟩
    · rw [heq]
      exact hp.derived k
    · rw [heq]
      exact fun hk => hp.derived k (hderived hk)

/-- A new handle is found under its key, in place of another one, but of no derived symbol. A stored
symbol whose handle was given up may be found anew this way. Which row the new handle has is not
said here. -/
theorem adopt {s : Handle} (hlive : s.deleted = false) (hkey : s.key = key)
    (hfree : ∀ k, (t.handle k).isDerived = true → (t.handle k).key ≠ key) : (t.adopt key s).Pools := by
  refine ⟨fun key' k hget => ?_, fun k hk => ?_⟩
  · have hget : (t.pool.insert key t.handles.length).get? key' = some k := hget
    rw [Dict.get?_insert] at hget
    rw [handle_adopt]
    split at hget
    · rename_i heq
      rw [if_pos (Option.some.inj hget).symm, heq]
      exact ⟨hlive, hkey⟩
    · obtain ⟨hlive', hkey'⟩ := hp.found key' k hget
      rw [if_neg (Nat.ne_of_lt (lt_of_live hlive'))]
      exact ⟨hlive', hkey'⟩
  · show (t.pool.insert key t.handles.length).get? _ = some k
    rw [Dict.get?_insert]
    rw [handle_adopt] at hk ⊢
    split at hk
    · rename_i hnew
      rw [if_pos hnew, if_pos hkey, hnew]
    · rename_i hold
      rw [if_neg hold, if_neg (hfree k hk)]
      exact hp.derived k hk

/-- A handle is marked deleted and found no more. Whether it had been found at all does not matter,
since handles that are marked deleted need not be. -/
theorem of_invalidated {pool : Dict Key HandleId} (hpool : ∀ key k, pool.get? key = some k →
      t.pool.get? key = some k ∧ k ≠ h)
    (hothers : ∀ k, (t.handle k).isDerived = true → k ≠ h → pool.get? (t.handle k).key = some k) :
    Pools { t.updateHandle h (·.invalidated) with pool := pool } := by
  refine ⟨fun key k hget => ?_, fun k hk => ?_⟩
  · obtain ⟨hget, hne⟩ := hpool key k hget
    rw [handle_withPool, handle_updateHandle_ne t hne (·.invalidated)]
    exact hp.found key k hget
  · rw [handle_withPool, handle_invalidate] at hk ⊢
    split at hk
    · cases (Handle.isDerived_iff.1 hk).2
    · rename_i hne
      rw [if_neg hne]
      exact hothers k hk hne

/-- A handle is abandoned under the key that it has. It may have been the one that is found under
this key or not, and is found under none afterwards. -/
theorem abandon (h : HandleId) : (t.abandon h (t.handle h).key).Pools := by
  unfold Table.abandon
  refine hp.of_invalidated (fun key k hget => ?_) fun k hk hne => ?_
  · unfold Dict.evict at hget
    split at hget
    · rw [Dict.get?_erase] at hget
      split at hget
      · cases hget
      · rename_i hother
        refine ⟨hget, ?_⟩
        rintro rfl
        exact hother (hp.found key k hget).2.symm
    · rename_i hunfound
      refine ⟨hget, ?_⟩
      rintro rfl
      rw [(hp.found key k hget).2] at hunfound
      exact hunfound hget
  · have hget := hp.derived k hk
    unfold Dict.evict
    split
    · rename_i hfound
      rw [Dict.get?_erase, if_neg ?_]
      · exact hget
      · intro heq
        rw [heq, hfound] at hget
        exact hne (Option.some.inj hget).symm
    · exact hget

/-- The pool finds nothing wrong when the symbol derived from an address was dropped. Its handle is
given up, which is one of the things that pools allow. -/
theorem dropDerived (a : Address) : (t.dropDerived a).Pools := by
  unfold Table.dropDerived
  split
  · rename_i h hget
    rw [← (hp.found _ h hget).2]
    exact hp.abandon h
  · exact hp

variable (hs : t.Sound)

include hs

/-- A stored symbol is released. It is the handle under this id that leaves the pool, and if another
one was found for it, this one was not. -/
theorem release {id : SymbolId} (hkey : (t.handle h).key = .stored id) : (t.release h id).Pools := by
  unfold Table.release
  refine hp.of_invalidated (fun key k hget => ?_) fun k hk _ => ?_
  · rw [Dict.get?_erase] at hget
    split at hget
    · cases hget
    · rename_i hne
      refine ⟨hget, ?_⟩
      rintro rfl
      exact hne ((hp.found key k hget).2.symm.trans hkey)
  · rw [Dict.get?_erase, if_neg (hs.key_ne_stored hk id)]
    exact hp.derived k hk

/-- A derived symbol gets a row, and is found by its id. The key of its address is free after that,
so that another symbol may be derived from there some time. -/
theorem embody (hlive : (t.handle h).deleted = false) (hrow : (t.handle h).row = none) (row : Row) :
    (t.embody h row).Pools := by
  have hself := hp.derived h (Handle.isDerived_iff.2 ⟨hrow, hlive⟩)
  have hhandle : ∀ k, (t.embody h row).handle k =
      if k = h then (t.handle h).promoted row t.store.modificationCount else t.handle k :=
    handle_updateHandle t (lt_of_live hlive) (·.promoted row _)
  have hpool : ∀ key, (t.embody h row).pool.get? key = if key = .stored row.id then some h
      else if key = (t.handle h).key then none else t.pool.get? key := Dict.get?_rekey _ hself
  refine ⟨fun key k hget => ?_, fun k hk => ?_⟩
  · rw [hpool] at hget
    rw [hhandle]
    split at hget
    · rename_i hstored
      rw [if_pos (Option.some.inj hget).symm]
      exact ⟨hlive, hstored.symm⟩
    · split at hget
      · cases hget
      · rename_i hother
        have hfound := hp.found key k hget
        rw [if_neg ?_]
        · exact hfound
        · rintro rfl
          exact hother hfound.2.symm
  · rw [hhandle] at hk ⊢
    split at hk
    · cases hk
    · rename_i hne
      have hget := hp.derived k hk
      have hother : (t.handle k).key ≠ (t.handle h).key := by
        intro heq
        rw [heq, hself] at hget
        exact hne (Option.some.inj hget).symm
      rw [hpool, if_neg hne, if_neg (hs.key_ne_stored hk _), if_neg hother]
      exact hget

end Pools

/-- A fresh row is stored, and no symbol is derived from its address any more. -/
theorem Pools.withFresh (hp : t.Pools) (row : Row) (b : Store.Backend) : (t.withFresh row b).Pools :=
  dropDerived (t := t.withBackend b) (hp.congr rfl rfl) row.address

/-- No step makes the pool find what it should not, but the move of a derived symbol. The proof goes
through the steps and cites the lemmas above. It does not matter whether rows were changed behind
the table's back, for the pool is not asked about rows. -/
theorem Step.pools (hstep : Step may t t') (hrelocate : ¬ may .relocate) (hs : t.Sound) (hp : t.Pools) :
    t'.Pools := by
  cases hstep with
  | aside hbeside => exact hp.congr hbeside.pool hbeside.handles
  | plan | draw | intrudePut | intrudeTake => exact hp.congr rfl rfl
  | adopt s hpool hnew =>
    have hlive : s.deleted = false := by
      rcases hnew with ⟨id, r, -, hofRow⟩ | ⟨a, rfl⟩
      · obtain ⟨_, -, rfl⟩ := Handle.eq_of_ofRow hofRow
        rfl
      · rfl
    refine hp.adopt hlive rfl fun k hk heq => ?_
    rw [← heq, hp.derived k hk] at hpool
    cases hpool
  | refresh => exact hp.updateHandle rfl rfl nofun
  | vanish h => exact hp.abandon h
  | @insert _ _ row b => exact hp.withFresh row b
  | @create _ _ row b s _ hstores _ hnew =>
    have hfresh : Step may t (t.withFresh row b) := .insert ‹_› _ ‹_› hstores ‹_›
    obtain ⟨_, -, rfl⟩ := Handle.eq_of_ofRow hnew
    exact (hp.withFresh row b).adopt rfl rfl fun k hk => (hfresh.sound hs).key_ne_stored hk row.id
  | @promote _ h row b hlive hrow _ _ hstores =>
    have hs' : (t.withBackend b).Sound := ⟨hstores.puts.sound, hs.inOrder⟩
    exact Pools.embody (t := t.withBackend b) (hp.congr rfl rfl) hs' hlive hrow row
  | @edit h r r' b =>
    exact Pools.updateHandle (t := t.withBackend b) (hp.congr rfl rfl) rfl rfl nofun
  | mark => exact hp.updateHandle rfl rfl id
  | @takeOut _ h id b hkey hremoves =>
    have hs' : (t.withBackend b).Sound := ⟨hremoves.sound, hs.inOrder⟩
    exact Pools.release (t := t.withBackend b) (hp.congr rfl rfl) hs' hkey
  | relocate hmay => exact absurd hmay hrelocate

/-- The pool finds nothing wrong after any number of steps that move no derived symbol, whatever is
done behind the table's back. -/
theorem Path.pools (hpath : Path may t t') (hrelocate : ¬ may .relocate) (hs : t.Sound) (hp : t.Pools) :
    t'.Pools := by
  induction hpath with
  | refl => exact hp
  | tail hpath hstep ih => exact hstep.pools hrelocate (Path.sound hpath hs) ih

/-! ## Upkeep -/

/-- A symbol whose copy is current goes on to be found while handles are kept up. It is not given
up, as its copy is current, and nobody else comes under its key, as that is taken. -/
theorem Step.get?_of_isCurrent (hstep : Step Table.upkeep t t')
    (hcurrent : t.IsCurrent h) (hget : t.pool.get? key = some h) : t'.pool.get? key = some h := by
  cases hstep with
  | aside hbeside =>
    rw [hbeside.pool]
    exact hget
  | adopt s hpool =>
    show (t.pool.insert s.key t.handles.length).get? key = some h
    rw [Dict.get?_insert, if_neg ?_]
    · exact hget
    · rintro rfl
      cases hpool.symm.trans hget
  | refresh => exact hget
  | vanish k hlive' hrow hstale =>
    show (t.pool.evict (t.handle k).key k).get? key = some h
    unfold Dict.evict
    split
    · rename_i hfound
      rw [Dict.get?_erase, if_neg ?_]
      · exact hget
      · -- what vanishes is out of date
        rintro rfl
        obtain rfl : h = k := Option.some.inj (hget.symm.trans hfound)
        rcases hcurrent with hdeleted | hnone | hseen
        · cases hdeleted.symm.trans hlive'
        · cases hnone.symm.trans hrow
        · exact hstale hseen
    · exact hget
  | edit h hrow hedits =>
    cases hedits with
    | mark hmay | rename hmay | readdress hmay => exact hmay.elim
  | plan hmay | draw hmay | insert hmay | create hmay | promote hmay | mark hmay | takeOut hmay
  | relocate hmay | intrudePut hmay | intrudeTake hmay => exact hmay.elim

end SymbolTable.Table
