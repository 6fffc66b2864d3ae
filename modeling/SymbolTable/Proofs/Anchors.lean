import SymbolTable.Proofs.Designation
import SymbolTable.Proofs.Table.Guards

/-!
# Anchored rows

A row names the scope in which it lies. Where listeners act in the middle of a deletion, a symbol
may be deleted in the middle of the deletion of something in it, and then what lay in it is still
there when its own row is gone. But this is being deleted, too, so in the end no row is left that
names a scope that is gone (`Table.Anchored`).

This takes more than marks: what is in a scope is listed before it is deleted, and where a symbol
lies is read before its designation is passed on. So while a deletion is going on, nothing may be
moved into the symbol, and the symbol may not be moved itself (`Table.Shields`).
-/

namespace SymbolTable

open Table (Path Step upkeep)

variable {t t₁ t₂ t' : Table} {may : Deed → Prop} {on on' : HandleId → Prop} {h : HandleId} {id : SymbolId}
  {x : Row}

namespace Table

/-! ## Scopes that are there, and symbols that are being deleted -/

/-- A deletion of the stored symbol is going on. -/
def Dying (t : Table) (id : SymbolId) : Prop :=
  ∃ k, (t.handle k).deleting = true ∧ (t.handle k).key = .stored id

/-- The row under the id is that of a scope. -/
def HasScope (t : Table) (id : SymbolId) : Prop :=
  ∃ r k, t.row? id = some r ∧ r.kind? = some k ∧ k.isScope = true

/-- A scope that accepts a symbol is there, and its row is that of a scope. -/
theorem Accepts.hasScope {k : Kind} (h : t.Accepts k (.of id)) : t.HasScope id := by
  obtain ⟨r, k', hrow, hkind, hscope, -⟩ := h
  exact ⟨r, k', hrow, hkind, hscope⟩

namespace HasScope

/-- A scope stays one as long as its row stays with its kind. Its kind is read off the tag of the
row, and whether the kind is one of scopes is told by the kind alone. -/
theorem of_row (h : t.HasScope id) (hrow : ∀ r, t.row? id = some r → ∃ r', t'.row? id = some r' ∧ r'.tag = r.tag) :
    t'.HasScope id := by
  obtain ⟨r, k, hget, hkind, hscope⟩ := h
  obtain ⟨r', hget', htag⟩ := hrow r hget
  refine ⟨r', k, hget', ?_, hscope⟩
  rw [Row.kind?, htag]
  exact hkind

/-- Whether there is a scope under an id depends on the rows alone. -/
theorem congr (h : t.HasScope id) (hrows : t'.rows = t.rows) : t'.HasScope id :=
  h.of_row fun r hrow => ⟨r, (row?_congr hrows id).trans hrow, rfl⟩

end HasScope

/-- A symbol whose deletion is guarded is still being deleted. -/
theorem Guards.dying (hg : t.Guards on t') (hdying : t.Dying id) : t'.Dying id := by
  obtain ⟨k, hmarked, hkey⟩ := hdying
  exact ⟨k, (hg.marks k).trans hmarked, hg.keys k id hkey⟩

/-- Keeping up the handles begins no deletion. A mark is only set and taken away by the deletion
itself, and no handle gets another key by upkeep. So what is dying after it was dying before. -/
theorem Dying.of_upkeep (hdying : t'.Dying id) (hpath : Path upkeep t t') (hs : t.Sound) : t.Dying id := by
  obtain ⟨k, hmarked, hkey⟩ := hdying
  rw [hpath.deleting_eq not_false] at hmarked
  refine ⟨k, hmarked, ?_⟩
  cases hold : (t.handle k).key with
  | stored i => rw [← hkey, hpath.key_stored hs hold]
  | derived a =>
    -- a handle without a row is left alone
    have hrow : (t.handle k).row = none := by
      cases hrow : (t.handle k).row with
      | none => rfl
      | some r => cases hold.symm.trans ((hs.inOrder k).key r hrow)
    have hlt : k < t.handles.length := by
      refine lt_of_ne_absent fun heq => ?_
      rw [heq] at hmarked
      cases hmarked
    rw [hpath.upkeep.2.2 k hlt (.inr (.inl hrow)), hold] at hkey
    cases hkey

/-! ## Rows that may join -/

/-- The row may come to stand in the table: it was there with another content, in the same scope or
outside all that is being deleted. Scopes do not come while a deletion is going on. -/
structure Receives (t : Table) (x : Row) : Prop where
  kind : (∃ y ∈ t.rows, y.id = x.id ∧ y.tag = x.tag) ∨
    ∃ k, x.kind? = some k ∧ (k.isScope = true → ∀ j, (t.handle j).deleting = false)
  parent : ∀ id, x.parent = .of id →
    (∃ y ∈ t.rows, y.id = x.id ∧ y.parent = .of id) ∨ t.HasScope id ∧ ¬ t.Dying id

/-- A row with the id, kind and scope of one that is there may come in its place, so nearly all
edits are taken. -/
theorem Receives.of_mem {y : Row} (hy : y ∈ t.rows) (hid : y.id = x.id) (htag : y.tag = x.tag)
    (hparent : y.parent = x.parent) : t.Receives x :=
  ⟨.inl ⟨y, hy, hid, htag⟩, fun _ hx => .inl ⟨y, hy, hid, hparent.trans hx⟩⟩

/-- If the rows are the same, each of them may stand there. -/
theorem Receives.of_rows_eq (hrows : t'.rows = t.rows) : ∀ x ∈ t'.rows, t.Receives x :=
  fun _ hx => .of_mem (hrows ▸ hx) rfl rfl rfl

/-! ## What is left alone while a deletion is going on -/

/-- From one table to the other, no row comes back, the symbols of some marked handles keep their
rows, and neither are these moved nor is anything moved into them. -/
structure Shields (on : HandleId → Prop) (t t' : Table) : Prop where
  guards : t.Guards on t'
  placed : ∀ k id r r', on k → (t.handle k).deleting = true → (t.handle k).key = .stored id →
    t.row? id = some r → t'.row? id = some r' → r'.address = r.address
  members : ∀ id, t.Dying id → ∀ x ∈ t'.rows, x.parent = .of id →
    ∃ y ∈ t.rows, y.id = x.id ∧ y.parent = .of id
  scopes : ∀ k, (t.handle k).deleting = true → ∀ id, t'.HasScope id → t.HasScope id

namespace Shields

/-- If nothing happens, everything is shielded. A row that is the same is in its place and in its
scope. -/
theorem refl (t : Table) : t.Shields on t where
  guards := .refl t
  placed _ _ _ _ _ _ _ hrow hrow' := by
    cases hrow.symm.trans hrow'
    rfl
  members _ _ x hx hparent := ⟨x, hx, rfl, hparent⟩
  scopes _ _ _ hscope := hscope

/-- What is shielded over two stretches is shielded over both. A row that came in the second stretch
came with another content from the first, or is new in both. In either case it may have come from
where the first began. -/
theorem trans (h : t.Shields on t₁) (h' : t₁.Shields on t₂) : t.Shields on t₂ where
  guards := h.guards.trans h'.guards
  placed k id r r₂ hk hmarked hkey hrow hrow₂ := by
    obtain ⟨r₁, hrow₁⟩ := h.guards.kept k id r hk hmarked hkey hrow
    have hmarked₁ := (h.guards.marks k).trans hmarked
    exact (h'.placed k id r₁ r₂ hk hmarked₁ (h.guards.keys k id hkey) hrow₁ hrow₂).trans
      (h.placed k id r r₁ hk hmarked hkey hrow hrow₁)
  members id hdying x hx hparent := by
    obtain ⟨y, hy, hid, hy'⟩ := h'.members id (h.guards.dying hdying) x hx hparent
    obtain ⟨z, hz, hid', hz'⟩ := h.members id hdying y hy hy'
    exact ⟨z, hz, hid'.trans hid, hz'⟩
  scopes k hmarked id hscope :=
    h.scopes k hmarked id (h'.scopes k ((h.guards.marks k).trans hmarked) id hscope)

/-- If more handles are shielded than are asked for, those that are asked for are. -/
theorem mono (h : t.Shields on t') (hon : ∀ k, on' k → on k) : t.Shields on' t' where
  guards := h.guards.mono hon
  placed k id r r' hk := h.placed k id r r' (hon k hk)
  members := h.members
  scopes := h.scopes

/-- To shield is to guard, to leave what is marked at its address, and to take only rows that may
come. These are the parts in which it is proved for every step. -/
theorem of_receives (hs : t.Sound) (hg : t.Guards on t')
    (hplaced : ∀ k id r r', on k → (t.handle k).deleting = true → (t.handle k).key = .stored id →
      t.row? id = some r → t'.row? id = some r' → r'.address = r.address)
    (hreceives : ∀ x ∈ t'.rows, t.Receives x) : t.Shields on t' where
  guards := hg
  placed := hplaced
  members id hdying x hx hparent :=
    ((hreceives x hx).parent id hparent).resolve_right fun h => h.2 hdying
  scopes k hmarked id hscope := by
    obtain ⟨x, kind, hrow, hkind, hscope⟩ := hscope
    rcases (hreceives x (mem_of_row? hrow)).kind with ⟨y, hy, hid, htag⟩ | ⟨kind', hkind', hnone⟩
    · refine ⟨y, kind, ?_, ?_, hscope⟩
      · rw [← id_of_row? hrow, ← hid]
        exact row?_id hs.backend hy
      · rw [Row.kind?, htag]
        exact hkind
    · cases hkind.symm.trans hkind'
      cases (hnone hscope k).symm.trans hmarked

/-- Steps that take no row out and move no symbol. This is where the rows have to be asked about, by
`hreceives`, as an edit may put a symbol into another scope. -/
theorem of_path (hpath : Path may t t') (hremove : ¬ may .remove) (hreaddress : ¬ may .readdress)
    (hrelocate : ¬ may .relocate) (hintrude : ¬ may .intrude) (hs : t.Sound)
    (hlt : may .write → t'.drawn < UInt64.size - 1) (he : t.Exact) (hreceives : ∀ x ∈ t'.rows, t.Receives x) :
    t.Shields on t' := by
  refine .of_receives hs (.of_path hpath hremove hrelocate hintrude hs hlt he) ?_ hreceives
  intro k id r r' _ _ _ hrow hrow'
  obtain ⟨x, hx, -, haddress⟩ := hpath.exists_row? hremove hintrude hrelocate hs hlt he hrow
  cases hx.symm.trans hrow'
  exact haddress hreaddress

/-- What the other symbols are guaranteed while the handle is marked, all of them are once the mark
is taken away. -/
theorem unmark (hidle : (t.handle h).deleting = false)
    (hshields : (t.updateHandle h fun s => { s with deleting := true }).Shields (· ≠ h) t') :
    t.Shields on (t'.updateHandle h fun s => { s with deleting := false }) := by
  have hne {k : HandleId} (hmarked : (t.handle k).deleting = true) : k ≠ h := by
    rintro rfl
    cases hidle.symm.trans hmarked
  have hmarked {k : HandleId} (hk : (t.handle k).deleting = true) :
      ((t.updateHandle h fun s => { s with deleting := true }).handle k).deleting = true := by
    rw [handle_updateHandle_ne t (hne hk), hk]
  have hkey {k : HandleId} {id : SymbolId} (hk : (t.handle k).key = .stored id) :
      ((t.updateHandle h fun s => { s with deleting := true }).handle k).key = .stored id :=
    (map_updateHandle Handle.key rfl).trans hk
  refine ⟨.unmark hidle hshields.guards, fun k id r r' _ hk hid => ?_, ?_, fun k hk => ?_⟩
  · exact hshields.placed k id r r' (hne hk) (hmarked hk) (hkey hid)
  · rintro id ⟨k, hk, hid⟩
    exact hshields.members id ⟨k, hmarked hk, hkey hid⟩
  · exact hshields.scopes k (hmarked hk)

end Shields

/-! ## Rows that lie in scopes that are there -/

/-- Designations are sound, the table is open, every row is of a kind, and it lies in a scope that
is there unless it is being deleted itself. -/
structure Anchored (t : Table) : Prop where
  regular : t.Regular
  opened : t.closed = false
  kinds : ∀ x ∈ t.rows, ∃ k, x.kind? = some k
  anchored : ∀ x ∈ t.rows, ∀ id, x.parent = .of id → t.HasScope id ∨ t.Dying x.id

namespace Anchored

/-- A table is still anchored if scopes and deletions go on and every row may have come to stand in
it. This is used for all changes that take no row out. -/
theorem of_receives (ha : t.Anchored) (hregular : t'.Regular) (hclosed : t'.closed = t.closed)
    (hscopes : ∀ id, t.HasScope id → t'.HasScope id) (hdying : ∀ id, t.Dying id → t'.Dying id)
    (hreceives : ∀ x ∈ t'.rows, t.Receives x) : t'.Anchored := by
  refine ⟨hregular, hclosed.trans ha.opened, fun x hx => ?_, fun x hx id hparent => ?_⟩
  · rcases (hreceives x hx).kind with ⟨y, hy, -, htag⟩ | ⟨k, hk, -⟩
    · rw [Row.kind?, ← htag]
      exact ha.kinds y hy
    · exact ⟨k, hk⟩
  · rcases (hreceives x hx).parent id hparent with ⟨y, hy, hid, hy'⟩ | ⟨hscope, -⟩
    · rw [← hid]
      exact (ha.anchored y hy id hy').imp (hscopes id) (hdying y.id)
    · exact .inl (hscopes id hscope)

/-- Steps that take no row out. Outages may not be planned, since the table has to stay regular.
That designations are sound at the end is shown by whoever takes the steps. -/
theorem of_path (ha : t.Anchored) (hpath : Path may t t') (hremove : ¬ may .remove)
    (hrelocate : ¬ may .relocate) (hintrude : ¬ may .intrude) (hplan : ¬ may .plan) (hs : t.Sound)
    (hlt : may .write → t'.drawn < UInt64.size - 1) (he : t.Exact) (hd : t'.Designated)
    (hreceives : ∀ x ∈ t'.rows, t.Receives x) : t'.Anchored := by
  have hg : t.Guards (fun _ => True) t' := .of_path hpath hremove hrelocate hintrude hs hlt he
  refine ha.of_receives (ha.regular.of_path hpath hplan hd) hpath.sameFrame.closed (fun id hscope => ?_)
    (fun id => hg.dying) hreceives
  exact hscope.of_row fun r hrow =>
    (hpath.exists_row? hremove hintrude hrelocate hs hlt he hrow).imp fun _ hx => ⟨hx.1, hx.2.1⟩

/-- The row of a handle is taken out, and where it was a scope, what is left in it is being deleted.
So no row that is left lies in a scope that is gone, unless it is on its way out, too. The row may
have been edited meanwhile, but it lies at the address that was read, for the designation. -/
theorem departs {r x : Row} (ha : t.Anchored) (hdeparts : t.Departs h r t') (hs : t.Sound) (he : t.Exact)
    (hkey : (t.handle h).key = .stored r.id) (hrow : t.row? r.id = some x) (haddress : x.address = r.address)
    (hempty : ∀ y ∈ t.rows, y.parent = .of r.id → t.Dying y.id) : t'.Anchored := by
  have hg := Guards.departs hdeparts hs he hkey (hrow ▸ Option.some_ne_none x)
  have hd : t'.Designated := by
    have hremoval {t₁ : Table} (hremoval : t.Removal h r t₁) : t₁.Designated :=
      ha.regular.designated.removal hs ha.regular.works
        (fun y hy => Option.some.inj (hy.symm.trans hrow) ▸ haddress) hremoval
    cases hdeparts with
    | unnoted h => exact hremoval h
    | noted h => exact (hremoval h).of_beside ⟨rfl, rfl, rfl, rfl, rfl, rfl⟩ rfl
  obtain ⟨b, hremoves, hbeside⟩ := hdeparts.exists_release
  have hmem {y : Row} (hy : y ∈ t'.rows) : y ∈ t.rows := by
    rw [hbeside.rows_eq] at hy
    exact ((hremoves.mem_rows y).1 hy).1
  refine ⟨ha.regular.of_path (hdeparts.path hkey) nofun hd, hbeside.closed.trans ha.opened,
    fun y hy => ha.kinds y (hmem hy), fun y hy id hparent => ?_⟩
  by_cases hid : id = r.id
  · subst hid
    exact .inr (hg.dying (hempty y (hmem hy) hparent))
  · refine (ha.anchored y (hmem hy) id hparent).imp (fun hscope => hscope.of_row fun z hz => ?_) hg.dying
    refine ⟨z, ?_, rfl⟩
    rw [row?_congr (t := t.withBackend b) hbeside.rows_eq]
    exact (row?_removes hs.backend hremoves id).trans ((if_neg hid).trans hz)

end Anchored

/-! ## Changes that are made in one go -/

variable {into : Scope → Prop} {a : Address}

/-- A row that is edited stays in its scope or goes to one that is there. What accepts it is there
and is a scope, so it is anchored in either case. -/
theorem Edits.parent_eq_or_accepts {r r' : Row} (hedits : t.Edits (Eq .write) (t.handle h) r r')
    (hrow : (t.handle h).row = some r) : r'.parent = r.parent ∨ ∃ k, t.Accepts k r'.parent := by
  cases hedits with
  | mark _ _ _ _ hparent => exact .inl hparent
  | rename _ plan _ haccepts =>
    rw [Handle.parent_of_row hrow] at haccepts
    by_cases heq : plan.scope = r.parent
    · exact .inl heq
    · exact .inr ⟨_, haccepts heq⟩
  | readdress hmay => cases hmay

/-- What is written in one go may come to stand in the table, unless it is written into a scope that
is being deleted. -/
theorem Written.receives (hw : t.Written into t') (hs : t.Sound) (he : t.Exact)
    (hinto : ∀ id, into (.of id) → ¬ t.Dying id) : ∀ x ∈ t'.rows, t.Receives x := by
  cases hw with
  | draw => exact .of_rows_eq hs.rows_draw
  | @edit h r r' b hrow hedits hscope hputs =>
    have hr : r ∈ t.rows := mem_of_row? ((he.mirrors h).row r hrow)
    intro x hx
    rcases (hputs.mem_rows x).1 hx with rfl | ⟨hx, -⟩
    · refine ⟨.inl ⟨r, hr, hedits.id_eq.symm, hedits.tag_eq.symm⟩, fun id hparent => ?_⟩
      rcases hedits.parent_eq_or_accepts hrow with hsame | ⟨k, haccepts⟩
      · exact .inl ⟨r, hr, hedits.id_eq.symm, hsame.symm.trans hparent⟩
      · rcases hscope with hsame | hscope
        · exact .inl ⟨r, hr, hedits.id_eq.symm, hsame.symm.trans hparent⟩
        · rw [hparent] at haccepts hscope
          exact .inr ⟨haccepts.hasScope, hinto id hscope⟩
    · exact .of_mem hx rfl rfl rfl
  | @promote h row b hlive hrow htag haddress hstores haccepts hscope =>
    intro x hx
    have hx : x ∈ b.rows := by rwa [claimPrimary_eq] at hx
    rcases (hstores.mem_rows hs x).1 hx with rfl | ⟨hx, -⟩
    · rw [((hs.inOrder h).derived hlive hrow).2] at htag
      refine ⟨.inr ⟨.label, Kind.ofTag?_eq_some_iff.2 htag, nofun⟩, fun id hparent => ?_⟩
      rw [hparent] at haccepts hscope
      exact .inr ⟨(haccepts nofun).hasScope, hinto id (hscope.resolve_left nofun)⟩
    · exact .of_mem hx rfl rfl rfl

/-- Symbols of any kind come where no deletion is going on. A new scope might be nested deeper than
a deletion that is going on has room for, and a symbol of any kind might come into a scope that was
listed already. -/
theorem Created.receives (hc : t.Created t') (hs : t.Sound) (hidle : ∀ k, (t.handle k).deleting = false) :
    ∀ x ∈ t'.rows, t.Receives x := by
  have hfresh {k : Kind} {row : Row} {b : Store.Backend} (htag : row.tag = k.tag) (hstores : t.Stores row b)
      (haccepts : t.Accepts k row.parent) : ∀ x ∈ b.rows, t.Receives x := by
    intro x hx
    rcases (hstores.mem_rows hs x).1 hx with rfl | ⟨hx, -⟩
    · refine ⟨.inr ⟨k, Kind.ofTag?_eq_some_iff.2 htag, fun _ => hidle⟩, fun id hparent => .inr ?_⟩
      rw [hparent] at haccepts
      refine ⟨haccepts.hasScope, ?_⟩
      rintro ⟨j, hmarked, -⟩
      cases (hidle j).symm.trans hmarked
    · exact .of_mem hx rfl rfl rfl
  cases hc with
  | draw => exact .of_rows_eq hs.rows_draw
  | @insert k row b htag hstores haccepts | @create k row b s htag hstores haccepts =>
    intro x hx
    rw [claimPrimary_eq] at hx
    have hx : x ∈ (t.withFresh row b).rows := hx
    rw [rows_withFresh] at hx
    exact hfresh htag hstores haccepts x hx

/-- A symbol that gets another address stays in its scope, so its row may come to stand in the
table. Only the address of its row changes, and what a table receives is told by ids, kinds and
scopes. -/
theorem Readdressed.receives (hr : t.Readdressed h a t') (he : t.Exact) : ∀ x ∈ t'.rows, t.Receives x := by
  obtain ⟨r, b, hrow, hputs, hbeside⟩ := hr.exists_written
  intro x hx
  rw [hbeside.rows_eq] at hx
  rcases (hputs.mem_rows x).1 hx with rfl | ⟨hx, -⟩
  · exact .of_mem (mem_of_row? ((he.mirrors h).row r hrow)) rfl rfl rfl
  · exact .of_mem hx rfl rfl rfl

/-- A symbol is moved that is not being deleted. Its designation may go along, so the address that a
deletion of it has read would be out of date if one were going on. -/
theorem Shields.readdressed (hr : t.Readdressed h a t') (hs : t.Sound) (he : t.Exact)
    (hidle : (t.handle h).deleting = false) : t.Shields on t' := by
  have hg : t.Guards on t' := .of_path hr.path nofun nofun nofun hs nofun he
  refine .of_receives hs hg ?_ (hr.receives he)
  intro k id x x' _ hmarked hkey hrow hrow'
  obtain ⟨r, b, hr', hputs, hbeside⟩ := hr.exists_written
  have hne : id ≠ r.id := by
    rintro rfl
    obtain rfl := he.eq_of_stored hkey ((hs.inOrder h).key r hr') (hrow ▸ Option.some_ne_none x)
    cases hidle.symm.trans hmarked
  rw [row?_congr (t := t.withBackend b) hbeside.rows_eq, row?_puts hs.backend hputs, if_neg hne, hrow] at hrow'
  cases hrow'
  rfl

/-- The row of a handle is taken out. All handles but its own are shielded: their rows stay, and the
row that is gone comes into nobody's way. -/
theorem Shields.departs {r : Row} (hdeparts : t.Departs h r t') (hs : t.Sound) (he : t.Exact)
    (hkey : (t.handle h).key = .stored r.id) (hrow : t.row? r.id ≠ none) : t.Shields (· ≠ h) t' := by
  have hg := Guards.departs hdeparts hs he hkey hrow
  obtain ⟨b, hremoves, hbeside⟩ := hdeparts.exists_release
  have hmem {y : Row} (hy : y ∈ t'.rows) : y ∈ t.rows := by
    rw [hbeside.rows_eq] at hy
    exact ((hremoves.mem_rows y).1 hy).1
  refine .of_receives hs hg (fun k id x x' _ _ _ hx hx' => ?_) fun y hy => .of_mem (hmem hy) rfl rfl rfl
  have hget := row?_id hs.backend (hmem (mem_of_row? hx'))
  rw [id_of_row? hx', hx] at hget
  cases hget
  rfl

/-- Symbols that are stored claim their addresses where they may. A stride keeps designations sound,
and the one that is claimed after it is that of a stored row. -/
theorem Designated.claimed (hd : t.Designated) (hc : t.Claimed t') (hs : t.Sound) (he : t.Exact)
    (hlt : t'.drawn < UInt64.size - 1) : t'.Designated := by
  obtain ⟨t₁, hstride, rfl | ⟨r, k, hr, hk, rfl⟩⟩ := hc
  · exact hstride.designated nofun nofun nofun hs he (fun _ => hlt) hd
  · have hlt₁ : t₁.drawn < UInt64.size - 1 := by rwa [claimPrimary_eq] at hlt
    exact (hstride.designated nofun nofun nofun hs he (fun _ => hlt₁) hd).claimPrimary
      (hstride.step.sound hs) hr hk

end Table

/-! ## The course -/

/-- The course on which rows stay anchored, and symbols that are being deleted are left alone. -/
def Course.shielding : Course :=
  .assuring Table.Anchored (Table.Shields fun _ => True) .refl (fun _ _ _ => .trans)
    fun t t' hs he htended ha => by
      have hpath : Path upkeep t t' := .single htended.stride.step
      have hrows : t'.rows = t.rows := hpath.rows_eq_of_upkeep
      have hregular := ha.regular.of_upkeep hs he htended.stride
      exact ⟨ha.of_path hpath not_false not_false not_false not_false hs False.elim he hregular.designated
          (.of_rows_eq hrows),
        .of_path hpath not_false not_false not_false not_false hs False.elim he (.of_rows_eq hrows)⟩

namespace Course

/-- What stands around the rows and the handles changes, and designations are sound after that. The
premise is all that is left to show, since the rows and the handles are the same. -/
theorem shielding_of_beside (hbeside : t.Beside t') (hkeep : t.Sound → t.Exact → t.Anchored → t'.Designated) :
    shielding.rel t t' := by
  have hpath : Path upkeep t t' := .single (.aside hbeside)
  refine assuring_of_path hpath not_false not_false fun hs _ he ha => ⟨?_, ?_⟩
  · exact ha.of_path hpath not_false not_false not_false not_false hs False.elim he (hkeep hs he ha)
      (.of_rows_eq hbeside.rows_eq)
  · exact .of_path hpath not_false not_false not_false not_false hs False.elim he (.of_rows_eq hbeside.rows_eq)

theorem aloof_shielding : shielding.Aloof :=
  fun _ _ _ hbeside hfacts => shielding_of_beside hbeside fun _ _ ha =>
    ha.regular.designated.of_beside hbeside hfacts

/-- Stored symbols may be designated on this course, since a designation moves no row. -/
theorem shielding_designates : shielding.Designates :=
  fun _ _ hrow hable => shielding_of_beside ⟨rfl, rfl, rfl, rfl, rfl, rfl⟩ fun hs he ha =>
    ha.regular.designated.setPrimary (.of_handle hs hrow ((he.mirrors _).row _ hrow) hable)

/-- A row is written that may come to stand in the table. Its place, its kind and its scope are what
the premise speaks of, for every row of the table after it. -/
theorem shielding_of_claimed (hc : t.Claimed t')
    (hreceives : t.Sound → t.Exact → ∀ x ∈ t'.rows, t.Receives x) : shielding.rel t t' := by
  refine assuring_of_path hc.path nofun nofun fun hs hlt he ha => ⟨?_, ?_⟩
  · exact ha.of_path hc.path nofun nofun nofun nofun hs (fun _ => hlt) he
      (ha.regular.designated.claimed hc hs he hlt) (hreceives hs he)
  · exact .of_path hc.path nofun nofun nofun nofun hs (fun _ => hlt) he (hreceives hs he)

/-- Rows may be written that go into no scope that is being deleted. -/
theorem shielding_written {into : Scope → Prop} (hw : t.Written into t')
    (hinto : ∀ id, into (.of id) → ¬ t.Dying id) : shielding.rel t t' :=
  shielding_of_claimed hw.claimed fun hs he => hw.receives hs he hinto

/-- Rows may be edited that stay in their scopes, even while these are being deleted. -/
theorem shielding_writesInPlace : shielding.WritesInto fun _ => False :=
  fun _ _ _ hw => shielding_written hw fun _ => False.elim

/-- Symbols may be created while no deletion is going on. Otherwise one might come into a scope
whose members were listed already. -/
theorem shielding_created (hc : t.Created t') (hidle : ∀ k, (t.handle k).deleting = false) :
    shielding.rel t t' :=
  shielding_of_claimed hc.claimed fun hs _ => hc.receives hs hidle

/-- A symbol may get another address unless it is being deleted itself, for its deletion has read
where it lies. -/
theorem shielding_readdressed {a : Address} (hr : t.Readdressed h a t')
    (hidle : (t.handle h).deleting = false) : shielding.rel t t' := by
  refine assuring_of_path hr.path nofun nofun fun hs _ he ha => ⟨?_, .readdressed hr hs he hidle⟩
  exact ha.of_path hr.path nofun nofun nofun nofun hs nofun he
    (ha.regular.designated.readdressed hs he ha.regular.rules hr) (hr.receives he)

/-- A derived symbol may be moved to where no other one is. It has no row, so nothing is anchored in
it, and the pool stays as it should be since the address is free. -/
theorem shielding_transferred {a : Address} (hlive : (t.handle h).deleted = false)
    (hrow : (t.handle h).row = none) (hfree : t.Underived a) : shielding.rel t (t.transferred h a) := by
  have hpath : Path (Eq .relocate) t (t.transferred h a) := Table.path_transferred rfl hlive hrow
  refine ⟨hpath.mono fun _ _ => trivial, fun hs _ he ha => ⟨he.transferred hs hlive hrow hfree, ?_, ?_⟩⟩
  · have hg : t.Guards (fun _ => True) (t.transferred h a) := .of_rows_eq hpath nofun hs rfl
    have hd : (t.transferred h a).Designated := fun c id hprimary =>
      (ha.regular.designated c id hprimary).of_row?_eq rfl rfl
    exact ha.of_receives (ha.regular.of_path hpath nofun hd) rfl (fun _ hscope => hscope.congr rfl)
      (fun _ => hg.dying) (.of_rows_eq rfl)
  · refine .of_receives hs (.of_rows_eq hpath nofun hs rfl) (fun k id r r' _ _ _ hget hget' => ?_)
      (.of_rows_eq rfl)
    cases hget.symm.trans hget'
    rfl

end Course

end SymbolTable
