import SymbolTable.Proofs.Table.Transfer
import SymbolTable.Proofs.Telling

/-!
# Block moves

Symbols are moved along with their block one by one. Where the store works, this is done for
certain, and what it does to the rows, the designations and the journal is a transfer
(`Table.Undergoes`, `Action.answers_relocate`). So a block move comes to the transfers of its
symbols, one after the other (`Action.answers_relocateEach`), and those come to the same in every
order in which no symbol arrives where a later one has yet to leave from
(`Runs.block_moves_commute`). Where a symbol does, its designation and what the journal has of it
are lost to the other one (`Runs.block_moves_do_not_commute`).
-/

namespace SymbolTable

open SymbolTable.Action
open Table (Path upkeep)

variable {σ : Type} {t t₁ t' : Table} {h : HandleId} {id : SymbolId} {r : Row}
  {oldBase newBase : Address}

namespace Action

/-- Where the store works, the row of a handle can be written again with the texts that it has. The
row was stored with its texts, so a store on disk takes them again. That is the only reason for
which it would turn a row down. -/
theorem answers_write (hb : t.store.backend.Sound) (hworks : t.store.Works) (hrow : (t.handle h).row = some r)
    (hr : r ∈ t.rows) {edit : Row → Row}
    (hfits : Row.Layout.fits r = true → Row.Layout.fits (edit r) = true) :
    Answers t (write h edit : Action σ Unit) fun _ t' =>
      ∃ b, t.store.backend.Puts (edit r) b ∧ t' = t.written h (edit r) b := by
  obtain ⟨b, hput⟩ := hb.exists_put_of_mem hr hfits
  refine .look_bind ?_
  rw [hrow]
  refine Ends.seq (.changeStore fun now => ?_)
  have hreach : t.store.reach now .put (some (edit r).id) = .ok () := by rw [Store.reach, hworks]
  simp only [Store.put, hreach, hput]
  exact .ok (Ends.change ⟨(), rfl, b, hb.puts hput, rfl⟩)

/-- Where the store works, what is to be done to a symbol that is there is begun. Its refresh can
only be refused by the store. -/
theorem answers_current_of_isThere {α : Type} {a : Action σ α} {P : α → Table → Prop} (ht : t.Reliable)
    (hworks : t.store.Works) (hthere : t.IsThere h) (ha : ∀ t₁, t.Refreshed h (.ok ()) t₁ → Answers t₁ a P) :
    Answers t (current h a) P := by
  refine Ends.current_of_isThere ht.sound ht.opened hthere (fun fault hfails => ?_) ha
  obtain ⟨_, _, -, hfails⟩ := hfails
  exact absurd hfails hworks.not_mayFail

end Action

namespace Table

/-- The symbol of a handle is transferred, and the other symbols stay what they are. -/
structure Undergoes (t : Table) (m : Transfer) (t' : Table) : Prop where
  path : Path (Eq .readdress) t t'
  writes_le : t'.writes ≤ t.writes + 1
  terrain : t'.terrain = m.apply t.terrain
  key_eq : ∀ k, (t'.handle k).key = (t.handle k).key
  isThere : ∀ k, t.IsThere k → t'.IsThere k

/-- The row that is put under the id of another one takes its place. Rows are listed by ascending
ids, and the id is the same, so the list keeps its order. The other rows are not touched by the
transfer, as they have other ids. -/
theorem rows_puts {b₀ b : Store.Backend} (hb : b₀.Sound) (hr : r ∈ b₀.rows) {a : Address}
    (hputs : b₀.Puts { r with address := a } b) (source : Address) :
    b.rows = b₀.rows.map (Transfer.row ⟨r.id, source, a⟩) := by
  have hasc := hb.ascending_rows
  have hrow {x : Row} (hx : x ∈ b₀.rows) (hid : x.id = r.id) :
      Transfer.row ⟨r.id, source, a⟩ x = { r with address := a } := by
    rw [Transfer.row, if_pos hid, hasc.eq_of_id_eq hx hr hid]
  refine Row.Ascending.eq_of_mem_iff (List.pairwise_map.2 (hasc.imp ?_)) hputs.sound.ascending_rows fun x => ?_
  · intro x y hlt
    rwa [Transfer.id_row, Transfer.id_row]
  · rw [hputs.mem_rows, List.mem_map]
    constructor
    · rintro (rfl | ⟨hx, hid⟩)
      · exact ⟨r, hr, hrow hr rfl⟩
      · exact ⟨x, hx, Transfer.row_of_ne hid⟩
    · rintro ⟨y, hy, rfl⟩
      by_cases hid : y.id = r.id
      · exact .inl (hrow hy hid)
      · rw [Transfer.row_of_ne hid]
        exact .inr ⟨hy, hid⟩

/-- The designations after a move between two addresses are those after the transfer. The symbol
takes its designation along unless another one is designated at the target. The addresses are
different ones, so nothing is both left and claimed. -/
theorem primaryAt_movePrimary (t : Table) {m : Transfer} (hmoves : m.target ≠ m.source) :
    (t.movePrimary m.source m.target m.id).facts.primaryAt = m.primaryAt t.facts.primaryAt := by
  funext a
  unfold movePrimary Transfer.primaryAt
  split
  · rfl
  · by_cases ha : a = m.target <;> cases htarget : t.facts.primaryAt m.target <;> simp [ha, hmoves, htarget]

/-- A stored symbol that moves along with a block undergoes a transfer. The three parts are compared
one by one: the row that was put, the designation that was moved, and the journal. -/
theorem undergoes_along (hs : t.Sound) (hrow : (t.handle h).row = some r) (hget : t.row? r.id = some r)
    {a : Address} (hmoves : a ≠ r.address) {b : Store.Backend}
    (hputs : t.store.backend.Puts { r with address := a } b) :
    t.Undergoes ⟨r.id, r.address, a⟩
      { (t.written h { r with address := a } b).movePrimary r.address a r.id with
        journal := t.journal.moveAddress r.address a } := by
  have haddress := (hs.inOrder h).address r hrow
  have hprimaries := primaryAt_movePrimary (t.written h { r with address := a } b)
    (m := ⟨r.id, r.address, a⟩) hmoves
  have hpath := (Readdressed.along hrow hputs).path
  rw [haddress] at hpath
  rw [movePrimary_eq] at hpath ⊢
  refine ⟨hpath, Nat.le_of_eq hputs.writes, ?_, fun k => ?_, fun k hthere => ?_⟩
  · show Terrain.mk _ _ _ = _
    rw [hprimaries]
    exact congrArg (Terrain.mk · _ _) (rows_puts hs.backend (mem_of_row? hget) hputs r.address)
  · exact map_updateHandle (t := t.withBackend b) (f := (·.refreshed _ _)) Handle.key rfl
  · have hwritten : (t.written h { r with address := a } b).IsThere k := hthere.written hs hget rfl rfl hputs
    exact hwritten.of_handle_eq rfl rfl

/-- A symbol undergoes without a trace that it stays where it lies. The row that the transfer makes
of it is the row itself. -/
theorem undergoes_of_stays (hb : t.store.backend.Sound) (hget : t.row? r.id = some r) :
    t.Undergoes ⟨r.id, r.address, r.address⟩ t := by
  refine ⟨.refl, Nat.le_succ _, (Transfer.apply_of_stays rfl fun x hx hid => ?_).symm, fun _ => rfl,
    fun _ hthere => hthere⟩
  rw [hb.ascending_rows.eq_of_id_eq hx (mem_of_row? hget) hid]

/-- What is undergone after a refresh is undergone. Nothing that is transferred is touched by the
refresh, neither the rows nor the designations nor the journal. -/
theorem Undergoes.of_refreshed {m : Transfer} (hr : t.Refreshed h (.ok ()) t₁) (hu : t₁.Undergoes m t') :
    t.Undergoes m t' := by
  have hwrites : t₁.writes = t.writes := congrArg Store.writes hr.path.upkeep.1
  have hterrain : t₁.terrain = t.terrain := by cases hr <;> rfl
  have hkey (k : HandleId) : (t₁.handle k).key = (t.handle k).key := by
    cases hr with
    | ready => rfl
    | reloaded => exact map_updateHandle Handle.key rfl
  exact ⟨(hr.path.mono fun _ => False.elim).trans hu.path, hwrites ▸ hu.writes_le, hterrain ▸ hu.terrain,
    fun k => (hu.key_eq k).trans (hkey k), fun k hthere => hu.isThere k (hthere.of_upkeep hr.path)⟩

end Table

namespace Action

/-- Where the store works, a stored symbol is moved along with a block for certain. The symbol that
stays where it lies is a case of its own, in which nothing is written. Otherwise the row is written,
which works, and the rest is a change of the table. -/
theorem answers_relocate (ht : t.Reliable) (hworks : t.store.Works) (hthere : t.IsThere h)
    (hkey : (t.handle h).key = .stored r.id) (hget : t.row? r.id = some r) (oldBase newBase : Address) :
    Answers t (relocate h oldBase newBase : Action σ Unit) fun _ t' =>
      t.Undergoes ⟨r.id, r.address, r.address.relocated oldBase newBase⟩ t' := by
  refine answers_current_of_isThere ht hworks hthere fun t₁ hr => .look_bind ?_
  have ht₁ := ht.of_upkeep hr.path
  have hstore : t₁.store = t.store := hr.path.upkeep.1
  have hget₁ : t₁.row? r.id = some r := (Table.row?_congr (congrArg (·.backend.rows) hstore) r.id).trans hget
  -- the handle has the row that is stored
  obtain ⟨x, hrow, hid⟩ := (ht₁.sound.inOrder h).exists_row (hr.key_eq.trans hkey) hr.isReady.live
  obtain rfl : x = r := by
    have hget₂ := ht₁.row?_eq hr.isReady hrow
    rw [hid, hget₁] at hget₂
    exact (Option.some.inj hget₂).symm
  rw [(ht₁.sound.inOrder h).address x hrow]
  refine Answers.imp ?_ fun _ _ hu => .of_refreshed hr hu
  dsimp only
  split
  · rename_i hstays
    rw [hstays]
    exact .pure (Table.undergoes_of_stays ht₁.sound.backend hget₁)
  · rename_i hmoves
    rw [Handle.isDerived_of_row hrow, if_neg Bool.false_ne_true, Handle.id?_eq_some_iff.2 (hr.key_eq.trans hkey)]
    refine .bind (answers_write ht₁.sound.backend (hstore ▸ hworks) hrow (Table.mem_of_row? hget₁) id) ?_
    rintro _ _ ⟨b, hputs, rfl⟩
    refine .bind (P := fun _ t' => t' = _) (Ends.change ⟨(), rfl, rfl⟩) ?_
    rintro _ _ rfl
    have hu := Table.undergoes_along ht₁.sound hrow hget₁ hmoves hputs
    rw [Table.movePrimary_eq] at hu ⊢
    exact Ends.change ⟨(), rfl, hu⟩

end Action

/-! ## Blocks -/

namespace Table

/-- The keys of handles. -/
def keys (t : Table) (hs : List HandleId) : List Key :=
  hs.map fun h => (t.handle h).key

/-- The transfer of the symbol of a handle when the block at `oldBase` moves to `newBase`, if it is
stored. -/
def transfer? (t : Table) (oldBase newBase : Address) (h : HandleId) : Option Transfer :=
  ((t.handle h).id?.bind t.row?).map fun r => ⟨r.id, r.address, r.address.relocated oldBase newBase⟩

/-- The transfers of the symbols of handles, one after the other. -/
def transfers (t : Table) (oldBase newBase : Address) (hs : List HandleId) : List Transfer :=
  hs.filterMap (t.transfer? oldBase newBase)

/-- No symbol arrives where a later one has yet to leave from. -/
def Orderly (t : Table) (oldBase newBase : Address) (hs : List HandleId) : Prop :=
  (t.transfers oldBase newBase hs).Pairwise Transfer.Clears

instance (t : Table) (oldBase newBase : Address) (hs : List HandleId) : Decidable (t.Orderly oldBase newBase hs) :=
  inferInstanceAs (Decidable (List.Pairwise _ _))

/-- A stored symbol is transferred from where it lies to where this comes to lie with the block. -/
theorem transfer?_eq_some (hkey : (t.handle h).key = .stored id) (hget : t.row? id = some r) :
    t.transfer? oldBase newBase h = some ⟨r.id, r.address, r.address.relocated oldBase newBase⟩ := by
  rw [transfer?, Handle.id?_eq_some_iff.2 hkey, Option.bind_some, hget]
  rfl

/-- The transfers of a list begin with that of its first symbol. -/
theorem transfers_cons (hkey : (t.handle h).key = .stored id) (hget : t.row? id = some r)
    (oldBase newBase : Address) (hs : List HandleId) : t.transfers oldBase newBase (h :: hs) =
      ⟨r.id, r.address, r.address.relocated oldBase newBase⟩ :: t.transfers oldBase newBase hs :=
  List.filterMap_cons_some (transfer?_eq_some hkey hget)

/-- A stored symbol that is there has a row. -/
theorem IsThere.exists_row (hthere : t.IsThere h) (hs : t.Sound) (hkey : (t.handle h).key = .stored id) :
    ∃ r, t.row? id = some r := by
  obtain ⟨x, hrow, rfl⟩ := (hs.inOrder h).exists_row hkey hthere.live
  exact (hthere.stored x hrow).imp fun _ => And.left

namespace Undergoes

variable {m : Transfer} (hu : t.Undergoes m t')

include hu

/-- To undergo a transfer changes no key. -/
theorem keys_eq (hs : List HandleId) : t'.keys hs = t.keys hs :=
  List.map_congr_left fun k _ => hu.key_eq k

/-- The row under an id is the one that the transfer makes of what was there. A transfer leaves ids
as they are. -/
theorem row?_eq (id : SymbolId) : t'.row? id = (t.row? id).map m.row := by
  have hrows : t'.rows = t.rows.map m.row := congrArg Terrain.rows hu.terrain
  rw [row?, hrows, List.find?_map, row?]
  refine congrArg (Option.map m.row) (congrArg (List.find? · t.rows) (funext fun r => ?_))
  rw [Function.comp, Transfer.id_row]

/-- The other symbols are still to be transferred as they were. Its row has another id than the one
that was transferred, and lies where it did. -/
theorem transfer?_eq (hne : (t.handle h).key ≠ .stored m.id) (oldBase newBase : Address) :
    t'.transfer? oldBase newBase h = t.transfer? oldBase newBase h := by
  rw [transfer?, transfer?, Handle.id?, hu.key_eq, ← Handle.id?]
  refine congrArg (Option.map _) (Option.bind_congr fun id hid => ?_)
  rw [hu.row?_eq]
  cases hget : t.row? id with
  | none => rfl
  | some r =>
    rw [Option.map_some, Transfer.row_of_ne]
    intro hrid
    rw [← hrid, id_of_row? hget] at hne
    exact hne (Handle.id?_eq_some_iff.1 hid)

/-- The other symbols of the block are still to be transferred as they were, so the list of
transfers may be made at the beginning. -/
theorem transfers_eq {hs : List HandleId} (hfresh : .stored m.id ∉ t.keys hs) (oldBase newBase : Address) :
    t'.transfers oldBase newBase hs = t.transfers oldBase newBase hs :=
  List.filterMap_congr fun _ hk =>
    hu.transfer?_eq (fun heq => hfresh (List.mem_map.2 ⟨_, hk, heq⟩)) oldBase newBase

end Undergoes

/-- A transfer is that of a stored symbol, from where it lies. The handle of a derived symbol, or of
one whose row is gone, has no transfer. -/
theorem exists_row_of_transfer? {m : Transfer} (hm : t.transfer? oldBase newBase h = some m) :
    ∃ r ∈ t.rows, (t.handle h).key = .stored r.id ∧
      m = ⟨r.id, r.address, r.address.relocated oldBase newBase⟩ := by
  obtain ⟨r, hr, rfl⟩ := Option.map_eq_some_iff.1 hm
  obtain ⟨id, hid, hget⟩ := Option.bind_eq_some_iff.1 hr
  rw [← id_of_row? hget] at hid
  exact ⟨r, mem_of_row? hget, Handle.id?_eq_some_iff.1 hid, rfl⟩

/-- The transfers of a block are those of the rows whose symbols are among its handles. A handle
that is derived, or whose row is gone, has no transfer, so only rows are found on the right. -/
theorem mem_transfers_iff (hb : t.store.backend.Sound) {hs : List HandleId} {m : Transfer} :
    m ∈ t.transfers oldBase newBase hs ↔ ∃ r ∈ t.rows, .stored r.id ∈ t.keys hs ∧
      m = ⟨r.id, r.address, r.address.relocated oldBase newBase⟩ := by
  rw [transfers, List.mem_filterMap]
  constructor
  · rintro ⟨h, hh, hm⟩
    obtain ⟨r, hr, hkey, rfl⟩ := exists_row_of_transfer? hm
    exact ⟨r, hr, List.mem_map.2 ⟨h, hh, hkey⟩, rfl⟩
  · rintro ⟨r, hr, hkeys, rfl⟩
    obtain ⟨h, hh, hkey⟩ := List.mem_map.1 hkeys
    exact ⟨h, hh, transfer?_eq_some hkey (row?_id hb hr)⟩

/-- No symbol is transferred twice if no two handles are of the same one. The id of a transfer is
that of the key of its handle. -/
theorem nodup_transfers {hs : List HandleId} (hdistinct : (t.keys hs).Nodup) :
    ((t.transfers oldBase newBase hs).map (·.id)).Nodup := by
  rw [List.Nodup, List.pairwise_map, transfers, List.pairwise_filterMap]
  refine (List.pairwise_map.1 hdistinct).imp fun hne m hm m' hm' heq => hne ?_
  obtain ⟨r, -, hkey, rfl⟩ := exists_row_of_transfer? hm
  obtain ⟨r', -, hkey', rfl⟩ := exists_row_of_transfer? hm'
  exact hkey.trans ((congrArg Key.stored heq).trans hkey'.symm)

end Table

namespace Action

/-- Moves symbols along with a block, one after the other. -/
def relocateEach (hs : List HandleId) (oldBase newBase : Address) : Action σ Unit :=
  hs.forM fun h => relocate h oldBase newBase

/-- Where the store works, the symbols of a block are transferred one after the other. The induction
is on the handles. Those that are left are there when the first one has moved, and none of them is
the same symbol, so their transfers can be listed beforehand. Each move is a write, for which
versions must be left. -/
theorem answers_relocateEach {hs : List HandleId} (ht : t.Reliable) (hworks : t.store.Works)
    (hlt : t.writes + hs.length < UInt64.size) (hthere : ∀ h ∈ hs, t.IsThere h)
    (hstored : ∀ h ∈ hs, ∃ id, (t.handle h).key = .stored id) (hdistinct : (t.keys hs).Nodup)
    (oldBase newBase : Address) :
    Answers t (relocateEach hs oldBase newBase : Action σ Unit) fun _ t' =>
      t'.terrain = t.terrain.after (t.transfers oldBase newBase hs) := by
  induction hs generalizing t with
  | nil => exact .pure rfl
  | cons h hs ih =>
    obtain ⟨id, hkey⟩ := hstored h (.head _)
    obtain ⟨r, hget⟩ := (hthere h (.head _)).exists_row ht.sound hkey
    obtain rfl := Table.id_of_row? hget
    obtain ⟨hfresh, hdistinct⟩ := List.nodup_cons.1 hdistinct
    rw [List.length_cons] at hlt
    rw [relocateEach, List.forM_eq_forM, List.forM_cons]
    refine (answers_relocate ht hworks (hthere h (.head _)) hkey hget oldBase newBase).bind fun _ t₁ hu => ?_
    have hle := hu.writes_le
    refine (ih (ht.of_path hu.path (by omega)) (hu.path.works nofun hworks) (by omega)
      (fun k hk => hu.isThere k (hthere k (.tail _ hk)))
      (fun k hk => (hu.key_eq k).symm ▸ hstored k (.tail _ hk)) (hu.keys_eq hs ▸ hdistinct)).imp
      fun _ t' hterrain => ?_
    rw [hterrain, hu.transfers_eq (hkey ▸ hfresh), hu.terrain, Table.transfers_cons hkey hget,
      Terrain.after_cons]

end Action

/-! ## The order of a block move -/

/-- A handle that was refreshed is of a symbol that is there. It is not marked deleted, and if its
copy was out of date, the store has answered with a row of its kind. -/
theorem Table.Refreshed.isThere (hr : t.Refreshed h (.ok ()) t') (ht : t.Reliable) : t.IsThere h := by
  cases hr with
  | ready hready => exact ht.isThere hready
  | reloaded hlive hrow _ hget htag =>
    refine ⟨hlive, fun x hx => ?_⟩
    cases hrow.symm.trans hx
    exact ⟨_, hget, htag⟩

/-- A symbol that says it is there is there. It was refreshed for the answer, and nothing about its
row was changed by that. -/
theorem Action.ends_isValid_isThere (ht : t.Reliable) (h : HandleId) :
    Ends t (isValid h : Action σ Bool) fun answer _ => answer = .ok true → t.IsThere h := by
  have hcurrent : Ends t (current h (pure ()) : Action σ Unit) fun answer _ =>
      answer = .ok () → t.IsThere h :=
    .current ht.sound h (fun _ => nofun) (fun _ _ _ => nofun) fun _ hr => .pure fun _ => hr.isThere ht
  refine .attempt_bind hcurrent fun answer t' hthere => ?_
  split
  · exact .pure fun _ => hthere rfl
  · exact .pure nofun

variable {s₀ s : Situated σ} {hs hs' : List HandleId}

/-- Handles of stored symbols that are valid, no two of the same one, all of which lie in a
space. -/
structure Situated.IsBlock (s : Situated σ) (space : Space) (hs : List HandleId) : Prop where
  valid : ∀ h ∈ hs, ((isValid h).run s).1 = .ok true
  stored : ∀ h ∈ hs, (s.table.handle h).isDerived = false
  distinct : (s.table.keys hs).Nodup
  within : ∀ r ∈ s.table.rows, .stored r.id ∈ s.table.keys hs → r.address.LiesIn space

/-- Handles in another order have the keys in another order. -/
theorem Table.keys_perm (t : Table) (hperm : hs'.Perm hs) : (t.keys hs').Perm (t.keys hs) :=
  hperm.map _

/-- A block is one in whichever order its symbols are given. Nothing that it says of the symbols
depends on their order. -/
theorem Situated.IsBlock.perm {space : Space} (hblock : s.IsBlock space hs) (hperm : hs'.Perm hs) :
    s.IsBlock space hs' where
  valid h hh := hblock.valid h (hperm.mem_iff.1 hh)
  stored h hh := hblock.stored h (hperm.mem_iff.1 hh)
  distinct := (s.table.keys_perm hperm).nodup_iff.2 hblock.distinct
  within r hr hkey := hblock.within r hr ((s.table.keys_perm hperm).mem_iff.1 hkey)

/-- The symbols of a block that moves within its space arrive at one address exactly if they leave
from one. -/
theorem Situated.IsBlock.parallel (hblock : s.IsBlock oldBase.space hs) (hb : s.table.store.backend.Sound)
    (hspace : newBase.space = oldBase.space) {m m' : Transfer} (hm : m ∈ s.table.transfers oldBase newBase hs)
    (hm' : m' ∈ s.table.transfers oldBase newBase hs) : m.target = m'.target ↔ m.source = m'.source := by
  obtain ⟨r, hr, hkey, rfl⟩ := (Table.mem_transfers_iff hb).1 hm
  obtain ⟨r', hr', hkey', rfl⟩ := (Table.mem_transfers_iff hb).1 hm'
  exact Address.relocated_inj hspace (hblock.within r hr hkey) (hblock.within r' hr' hkey')

/-- After the transfers of a block, its rows lie where they come to lie with it, and the others
where they did. Each row of the block is moved once, by its own transfer, so the order of the
transfers does not matter to the rows. -/
theorem Table.rows_after_transfers (hb : t.store.backend.Sound) (hdistinct : (t.keys hs).Nodup) :
    (t.terrain.after (t.transfers oldBase newBase hs)).rows = t.rows.map fun r =>
      if .stored r.id ∈ t.keys hs then { r with address := r.address.relocated oldBase newBase } else r := by
  have hmem {r : Row} (hr : r ∈ t.rows) :
      r.id ∈ (t.transfers oldBase newBase hs).map (·.id) ↔ .stored r.id ∈ t.keys hs := by
    rw [List.mem_map]
    constructor
    · rintro ⟨m, hm, hid⟩
      obtain ⟨r', -, hkey, rfl⟩ := (mem_transfers_iff hb).1 hm
      exact hid ▸ hkey
    · intro hkey
      exact ⟨_, (mem_transfers_iff hb).2 ⟨r, hr, hkey, rfl⟩, rfl⟩
  rw [Terrain.rows_after (nodup_transfers hdistinct) fun r => r.address.relocated oldBase newBase]
  · exact List.map_congr_left fun r hr => if_congr (hmem hr) rfl rfl
  · intro r hr m hm hid
    obtain ⟨r', hr', -, rfl⟩ := (mem_transfers_iff hb).1 hm
    rw [hb.ascending_rows.eq_of_id_eq hr' hr hid]

/-- A block is moved for certain, in whichever order. What is asked of a block beforehand, that its
symbols say they are there, is what the single moves need. -/
theorem Situated.IsBlock.exists_run {space : Space} (hblock : s.IsBlock space hs) (ht : s.table.Reliable)
    (hworks : s.table.store.Works) (hlt : s.table.writes + hs.length < UInt64.size)
    (oldBase newBase : Address) :
    ∃ s', (relocateEach hs oldBase newBase).run s = (.ok (), s') ∧
      s'.table.terrain = s.table.terrain.after (s.table.transfers oldBase newBase hs) := by
  have hthere (h : HandleId) (hh : h ∈ hs) : s.table.IsThere h :=
    ends_isValid_isThere ht h s rfl (hblock.valid h hh)
  have hstored (h : HandleId) (hh : h ∈ hs) : ∃ id, (s.table.handle h).key = .stored id := by
    cases hrow : (s.table.handle h).row with
    | none =>
      have hderived := Handle.isDerived_iff.2 ⟨hrow, (hthere h hh).live⟩
      cases (hblock.stored h hh).symm.trans hderived
    | some r => exact ⟨r.id, (ht.sound.inOrder h).key r hrow⟩
  obtain ⟨_, s', hrun, hterrain⟩ := (answers_relocateEach ht hworks hlt hthere hstored hblock.distinct
    oldBase newBase).exists_run
  exact ⟨s', hrun, hterrain⟩

/-- **The order of a block move.** Whatever happened since a table was opened empty, as long as the
writes fit a word, and where the store works: stored symbols of one space are moved along with a
block within it for certain, in every order. In every order, each of their rows lies where it comes
to lie with the block, and the other rows where they did. And in every two orders in which no symbol
arrives where a later one has yet to leave from, the same symbols are designated, and the journal
says the same. -/
theorem Runs.block_moves_commute {rules : Rules} (hnew : s₀.table.IsNew rules)
    (hrun : Runs Move.any false s₀ s) (hworks : s.table.store.Works)
    (hlt : s.table.writes + hs.length < UInt64.size) (hspace : newBase.space = oldBase.space)
    (hblock : s.IsBlock oldBase.space hs) (hperm : hs'.Perm hs) :
    ∃ s₁ s₂, (relocateEach hs oldBase newBase).run s = (.ok (), s₁) ∧
      (relocateEach hs' oldBase newBase).run s = (.ok (), s₂) ∧
      s₁.table.rows = s.table.rows.map (fun r =>
        if .stored r.id ∈ s.table.keys hs then { r with address := r.address.relocated oldBase newBase } else r) ∧
      s₂.table.rows = s₁.table.rows ∧
      (s.table.Orderly oldBase newBase hs → s.table.Orderly oldBase newBase hs' →
        (∀ a, s₂.table.facts.primaryAt a = s₁.table.facts.primaryAt a) ∧ s₂.table.journal = s₁.table.journal) := by
  have ht := Runs.reliable hnew hrun (Nat.lt_of_le_of_lt (Nat.le_add_right ..) hlt)
  have hb := ht.sound.backend
  have hblock' := hblock.perm hperm
  obtain ⟨s₁, hrun₁, hterrain₁⟩ := hblock.exists_run ht hworks hlt oldBase newBase
  obtain ⟨s₂, hrun₂, hterrain₂⟩ :=
    hblock'.exists_run ht hworks (hperm.length_eq.symm ▸ hlt) oldBase newBase
  have hrows₁ : s₁.table.rows = _ :=
    (congrArg Terrain.rows hterrain₁).trans (Table.rows_after_transfers hb hblock.distinct)
  have hrows₂ : s₂.table.rows = _ :=
    (congrArg Terrain.rows hterrain₂).trans (Table.rows_after_transfers hb hblock'.distinct)
  refine ⟨s₁, s₂, hrun₁, hrun₂, hrows₁, ?_, fun horderly horderly' => ?_⟩
  · rw [hrows₁, hrows₂]
    exact List.map_congr_left fun r _ => if_congr (s.table.keys_perm hperm).mem_iff rfl rfl
  · have hsame : s₂.table.terrain = s₁.table.terrain := by
      rw [hterrain₁, hterrain₂]
      exact Terrain.after_perm (hperm.filterMap _) (Table.nodup_transfers hblock.distinct)
        (fun _ hm _ hm' => hblock.parallel hb hspace hm hm') horderly horderly' _
    exact ⟨congrFun (congrArg Terrain.primaryAt hsame), congrArg Terrain.journal hsame⟩

/-- Three labels move along with a block, the second of them away from where the first one arrives.
Whether the third goes first or last makes no difference. -/
theorem Runs.block_moves_commute_of_overlapping :
    let s₀ : Situated Unit := ⟨.empty default .standard, (), 0⟩
    let go (s : Situated Unit) (m : Move) := ((m.action Listener.recorder).run s).2
    let label (name : String) (a : Address) : Move := .create ⟨name, .label, a, .global, .userDefined, 0, 0, none⟩
    let s := go (go (go s₀ (label "a" (.ram 16))) (label "b" (.ram 32))) (label "c" (.ram 64))
    s₀.table.IsNew .standard ∧ Runs Move.any false s₀ s ∧ s.table.store.Works ∧
      s.table.writes + [1, 0, 2].length < UInt64.size ∧ (Address.ram 32).space = (Address.ram 16).space ∧
      s.IsBlock (Address.ram 16).space [1, 0, 2] ∧ [2, 1, 0].Perm [1, 0, 2] ∧
      s.table.Orderly (.ram 16) (.ram 32) [1, 0, 2] ∧ s.table.Orderly (.ram 16) (.ram 32) [2, 1, 0] ∧
      ∃ s₁ s₂, (relocateEach [1, 0, 2] (.ram 16) (.ram 32)).run s = (.ok (), s₁) ∧
        (relocateEach [2, 1, 0] (.ram 16) (.ram 32)).run s = (.ok (), s₂) ∧
        s₁.table.rows.map (fun r => (r.name, r.address)) = [("a", .ram 32), ("b", .ram 48), ("c", .ram 80)] ∧
        s₂.table.rows = s₁.table.rows ∧ (∀ a, s₂.table.facts.primaryAt a = s₁.table.facts.primaryAt a) ∧
        s₂.table.journal = s₁.table.journal := by
  intro s₀ go label s
  have hnew : s₀.table.IsNew .standard := .memory _ _ _
  have hchronicle : Chronicle Move.any false s₀ s :=
    .move (.move (.move .refl trivial Chronicle.recorder) trivial Chronicle.recorder) trivial Chronicle.recorder
  have hrun := hchronicle.runs
  have hworks := hchronicle.works hnew.sound fun _ _ _ => rfl
  have hlt : s.table.writes + [1, 0, 2].length < UInt64.size := by decide +kernel
  have hspace : (Address.ram 32).space = (Address.ram 16).space := rfl
  have hblock : s.IsBlock (Address.ram 16).space [1, 0, 2] :=
    ⟨by decide +kernel, by decide +kernel, by decide +kernel, by decide +kernel⟩
  have hperm : [2, 1, 0].Perm [1, 0, 2] := by decide
  have horderly : s.table.Orderly (.ram 16) (.ram 32) [1, 0, 2] := by decide +kernel
  have horderly' : s.table.Orderly (.ram 16) (.ram 32) [2, 1, 0] := by decide +kernel
  obtain ⟨s₁, s₂, hrun₁, hrun₂, hrows, hrows', hsame⟩ :=
    Runs.block_moves_commute hnew hrun hworks hlt hspace hblock hperm
  obtain ⟨hprimaries, hjournal⟩ := hsame horderly horderly'
  refine ⟨hnew, hrun, hworks, hlt, hspace, hblock, hperm, horderly, horderly', s₁, s₂, hrun₁, hrun₂, ?_, hrows',
    hprimaries, hjournal⟩
  rw [hrows]
  decide +kernel

/-- Two labels move along with a block, one to where the other one lies. If the one that arrives
there goes first, it is designated no more, and all that the journal has of it stands where the
other one lies then. -/
theorem Runs.block_moves_do_not_commute :
    let s₀ : Situated Unit := ⟨.empty default .standard, (), 0⟩
    let go (s : Situated Unit) (m : Move) := ((m.action Listener.recorder).run s).2
    let label (name : String) (a : Address) : Move := .create ⟨name, .label, a, .global, .userDefined, 0, 0, none⟩
    let s := go (go s₀ (label "a" (.ram 16))) (label "b" (.ram 32))
    let moved (hs : List HandleId) := (relocateEach hs (.ram 16) (.ram 32)).run s
    s₀.table.IsNew .standard ∧ Runs Move.any false s₀ s ∧ s.table.store.Works ∧
      s.IsBlock (Address.ram 16).space [1, 0] ∧ [0, 1].Perm [1, 0] ∧
      (moved [1, 0]).1 = .ok () ∧ (moved [0, 1]).1 = .ok () ∧
      (moved [1, 0]).2.table.facts.primaryAt (.ram 32) = some ⟨1, by decide⟩ ∧
      (moved [0, 1]).2.table.facts.primaryAt (.ram 32) = none ∧
      ((moved [1, 0]).2.table.journal.entriesAt (.ram 32)).map (·.label) = ["a"] ∧
      ((moved [0, 1]).2.table.journal.entriesAt (.ram 48)).map (·.label) = ["a", "b"] := by
  intro s₀ go label s moved
  have hnew : s₀.table.IsNew .standard := .memory _ _ _
  have hchronicle : Chronicle Move.any false s₀ s :=
    .move (.move .refl trivial Chronicle.recorder) trivial Chronicle.recorder
  have hworks := hchronicle.works hnew.sound fun _ _ _ => rfl
  have hblock : s.IsBlock (Address.ram 16).space [1, 0] :=
    ⟨by decide +kernel, by decide +kernel, by decide +kernel, by decide +kernel⟩
  exact ⟨hnew, hchronicle.runs, hworks, hblock, by decide, by decide +kernel, by decide +kernel, by decide +kernel,
    by decide +kernel, by decide +kernel, by decide +kernel⟩

end SymbolTable
