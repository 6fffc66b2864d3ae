import SymbolTable.Proofs.BlockMoves

/-!
# Displacements in a space

The addresses of a space go round. To take off the bits beyond its width makes no difference to a
sum that is taken round afterwards (`Space.and_mask_add_and_mask`), so displacements add up as words
do, each is undone by its opposite, and the distance of two addresses leads from the one to the
other (`Space.circular`). This is so at every width, the full word and none included.

So a symbol that moves along with its block, and along with it back again, comes to lie where it
lay, and so does its row (`Runs.relocations_are_undone`). It does whether the symbol is stored or
derived, and wherever the two bases lie (`Address.relocated_relocated`).
-/

namespace SymbolTable

open SymbolTable.Action
open Table (Path)

/-! ## Sums that are taken round -/

/-- Bits beyond the width of a space have no part in what is taken round at its end. The width of a
space divides the width of a word into powers of two, so the remainder may be taken before. -/
theorem Space.and_mask_add_and_mask (s : Space) (x y : UInt64) :
    ((x &&& s.mask) + y) &&& s.mask = (x + y) &&& s.mask := by
  have hdvd : 2 ^ s.width ∣ 2 ^ 64 := Nat.pow_dvd_pow 2 (Nat.min_le_right ..)
  refine UInt64.toNat_inj.1 ?_
  rw [s.toNat_and_mask, s.toNat_and_mask, UInt64.toNat_add, UInt64.toNat_add, s.toNat_and_mask,
    Nat.mod_mod_of_dvd _ hdvd, Nat.mod_mod_of_dvd _ hdvd, Nat.mod_add_mod]

namespace Address

variable {a b oldBase newBase : Address} {space : Space}

/-- A displaced address is one of the space, since it is masked. -/
theorem displace_liesIn (ha : a.space = space) (x : Int64) : (a.displace x).LiesIn space := by
  refine ⟨ha, ?_⟩
  rw [displace, ha, UInt64.and_assoc, UInt64.and_self]

/-- An address of the space is not moved by nothing. Another one would lose the bits beyond the
width. -/
theorem displace_zero (ha : a.LiesIn space) : a.displace 0 = a := by
  have hoffset : (a.offset + Int64.toUInt64 0) &&& a.space.mask = a.offset := by
    rw [ha.space, show Int64.toUInt64 0 = 0 from rfl, UInt64.add_zero, ha.truncated]
  rw [displace, hoffset]

/-- Displacements add up: two of them, one after the other, are their sum. The sum may come round as
a word, which makes no difference here. -/
theorem displace_displace (a : Address) (x y : Int64) : (a.displace x).displace y = a.displace (x + y) := by
  simp only [displace]
  rw [Space.and_mask_add_and_mask, UInt64.add_assoc, ← Int64.toUInt64_add]

/-- From each address of a space to each other one there is a distance, and it leads there. It is
the difference of the offsets as words, and the mask of the space takes back what wraps around. -/
theorem displace_distance (ha : a.LiesIn space) (hb : b.space = space) :
    ∃ d, a.distance? b = some d ∧ b.displace d = a := by
  refine ⟨_, if_pos (ha.space.trans hb.symm), ?_⟩
  have hoffset : (b.offset + (a.offset - b.offset)) &&& b.space.mask = a.offset := by
    rw [UInt64.add_comm, UInt64.sub_add_cancel, hb, ha.truncated]
  simp only [displace, UInt64.toUInt64_toInt64, hoffset]
  rw [hb, ← ha.space]

/-- A displacement can be taken back. The opposite displacement leads back, for addresses of the
space. -/
theorem displace_inj (ha : a.LiesIn space) (hb : b.LiesIn space) {x : Int64} :
    a.displace x = b.displace x ↔ a = b := by
  have hback {c : Address} (hc : c.LiesIn space) : (c.displace x).displace (-x) = c := by
    rw [displace_displace, Int64.add_neg_eq_sub, Int64.sub_self, displace_zero hc]
  refine ⟨fun heq => ?_, fun heq => by rw [heq]⟩
  calc a = (a.displace x).displace (-x) := (hback ha).symm
    _ = (b.displace x).displace (-x) := by rw [heq]
    _ = b := hback hb

/-- What moves along with a block, and along with it back again, comes to lie where it lay. The
displacement of the way back is the opposite of that of the way there, and words that add up to
nothing do so in every space. -/
theorem relocated_relocated (ha : a.LiesIn space) (hold : oldBase.space = space) (hnew : newBase.space = space) :
    (a.relocated oldBase newBase).relocated newBase oldBase = a := by
  have hcentre (x : UInt64) : oldBase.offset + (x - newBase.offset) = x + (oldBase.offset - newBase.offset) := by
    grind
  have hcancel : newBase.offset + (a.offset - oldBase.offset) + (oldBase.offset - newBase.offset) = a.offset := by
    grind
  have hmoved : (a.relocated oldBase newBase).space = newBase.space := by
    rw [relocated_eq (ha.space.trans hold.symm)]
  rw [relocated_eq hmoved, relocated_eq (ha.space.trans hold.symm), hnew, hold, hcentre, Space.and_mask_add_and_mask,
    hcancel, ha.truncated, ← ha.space]

end Address

/-- Displacements lead round in a space. Words act on its addresses by them, no two addresses are
led to one by the same, and from each address of the space to each other leads their distance. -/
structure Space.Circular (s : Space) : Prop where
  distance : ∀ a b : Address, a.LiesIn s → b.LiesIn s → ∃ d, a.distance? b = some d ∧ b.displace d = a
  zero : ∀ a : Address, a.LiesIn s → a.displace 0 = a
  /-- The displacements are added as words, which come round at the size of a word. -/
  add : ∀ a : Address, a.LiesIn s → ∀ x y : Int64, (a.displace x).displace y = a.displace (x + y)
  injective : ∀ a b : Address, a.LiesIn s → b.LiesIn s → ∀ x : Int64, a.displace x = b.displace x ↔ a = b
  closed : ∀ a : Address, a.LiesIn s → ∀ x : Int64, (a.displace x).LiesIn s

/-- Every space is circular, by the lemmas above, with no condition on its width. This is the form
in which displacements are spoken of outside. -/
theorem Space.circular (s : Space) : s.Circular where
  distance _ _ ha hb := Address.displace_distance ha hb.space
  zero _ ha := Address.displace_zero ha
  add a _ := a.displace_displace
  injective _ _ ha hb _ := Address.displace_inj ha hb
  closed _ ha := Address.displace_liesIn ha.space

/-! ## Symbols that move along with a block -/

variable {σ : Type} {t t' : Table} {h : HandleId} {a oldBase newBase : Address}

namespace Table

/-- Where the symbol of a handle lies, if it is there. -/
def site? (t : Table) (h : HandleId) : Option Address :=
  match (t.handle h).key with
  | .derived a => some a
  | .stored id => (t.row? id).map (·.address)

/-- A stored symbol lies where its row says. -/
theorem site?_of_stored {r : Row} (hkey : (t.handle h).key = .stored r.id) (hget : t.row? r.id = some r) :
    t.site? h = some r.address := by
  simp [site?, hkey, hget]

/-- A derived symbol lies at the address from which it is derived. -/
theorem site?_of_derived (hkey : (t.handle h).key = .derived a) : t.site? h = some a := by
  simp [site?, hkey]

/-- The symbol of a handle comes to lie at an address, and the rows of the others where they did. -/
structure Displaces (t : Table) (h : HandleId) (a : Address) (t' : Table) : Prop where
  path : Path (· ≠ .plan) t t'
  writes_le : t'.writes ≤ t.writes + 1
  isThere : t'.IsThere h
  site : t'.site? h = some a
  stored : ∀ id, (t'.handle h).key = .stored id ↔ (t.handle h).key = .stored id
  rows : t'.rows = t.rows.map fun r => if (t.handle h).key = .stored r.id then { r with address := a } else r

/-- A symbol is stored, or derived from the address of its handle. If there is a row, its kind and
its id are those of the handle, and if there is none, the handle is found by its address. -/
theorem IsThere.cases_key (hthere : t.IsThere h) (hs : t.Sound) :
    (∃ r, (t.handle h).key = .stored r.id ∧ t.row? r.id = some r) ∨
      (t.handle h).key = .derived (t.handle h).address ∧ (t.handle h).row = none := by
  cases hrow : (t.handle h).row with
  | none => exact .inr ⟨((hs.inOrder h).derived hthere.live hrow).1, rfl⟩
  | some x =>
    obtain ⟨r, hget⟩ := hthere.exists_row hs ((hs.inOrder h).key x hrow)
    refine .inl ⟨r, ?_, ?_⟩
    · rw [id_of_row? hget]
      exact (hs.inOrder h).key x hrow
    · rw [id_of_row? hget]
      exact hget

/-- The way there and the way back come to no way at all. A row that was moved is put back to where
it was, and all other rows were left alone both times. -/
theorem Displaces.rows_back {t₁ : Table} (hsite : t.site? h = some a) {b : Address} (hb : t.store.backend.Sound)
    (hd : t.Displaces h b t₁) (hd' : t₁.Displaces h a t') : t'.rows = t.rows := by
  rw [hd'.rows, hd.rows, List.map_map]
  refine (List.map_congr_left fun r hr => ?_).trans (List.map_id t.rows)
  simp only [Function.comp, hd.stored]
  by_cases hkey : (t.handle h).key = .stored r.id
  · have haddress : r.address = a :=
      Option.some.inj ((site?_of_stored hkey (row?_id hb hr)).symm.trans hsite)
    simp [hkey, ← haddress]
  · simp [hkey]

end Table

namespace Action

section
variable (ht : t.Reliable) (hworks : t.store.Works) (hthere : t.IsThere h)

include ht hworks hthere

/-- A symbol that is there tells where it lies. The handle is refreshed for it, and its address is
that of the row then. A derived symbol has the address of its key. -/
theorem answers_site : Answers t (telling h (·.address) : Action σ _) fun a _ => t.site? h = some a := by
  refine answers_current_of_isThere ht hworks hthere fun t₁ hr => Ends.look ⟨_, rfl, ?_⟩
  have ht₁ := ht.of_upkeep hr.path
  have hrows : t₁.rows = t.rows := hr.path.rows_eq_of_upkeep
  rcases hthere.cases_key ht.sound with ⟨r, hkey, hget⟩ | ⟨hkey, hrow⟩
  · obtain ⟨x, hrow, hid⟩ := (ht₁.sound.inOrder h).exists_row (hr.key_eq.trans hkey) hr.isReady.live
    have hget₁ := ht₁.row?_eq hr.isReady hrow
    rw [Table.row?_congr hrows, hid, hget] at hget₁
    obtain rfl := Option.some.inj hget₁
    show t.site? h = some (t₁.handle h).address
    rw [Table.site?_of_stored hkey hget, (ht₁.sound.inOrder h).address r hrow]
  · rw [hr.eq_of_row_eq_none hrow, Table.site?_of_derived hkey]

/-- Where the store works, a derived symbol is moved along with a block for certain. Its handle gets
the new address and the key for it, in the pool as well. Nothing has to be written. -/
theorem answers_relocate_of_derived (hrow : (t.handle h).row = none) (oldBase newBase : Address) :
    Answers t (relocate h oldBase newBase : Action σ Unit) fun _ t' =>
      t.Displaces h ((t.handle h).address.relocated oldBase newBase) t' := by
  have hkey := ((ht.sound.inOrder h).derived hthere.live hrow).1
  refine answers_current_of_isThere ht hworks hthere fun t₁ hr => .look_bind ?_
  obtain rfl := hr.eq_of_row_eq_none hrow
  have hrows (a : Address) (rows : List Row) :
      rows = rows.map fun r => if (t₁.handle h).key = .stored r.id then { r with address := a } else r := by
    simp [hkey]
  dsimp only
  split
  · rename_i hstays
    rw [hstays]
    exact Answers.pure ⟨.refl, Nat.le_succ _, hthere, Table.site?_of_derived hkey, fun _ => .rfl, hrows _ _⟩
  · rw [if_pos (Handle.isDerived_iff.2 ⟨hrow, hthere.live⟩)]
    refine .change_bind (.change ⟨(), rfl, ?_⟩)
    have hhandle := Table.handle_updateHandle_self t₁ (Table.lt_of_live hthere.live)
      (·.relocated ((t₁.handle h).address.relocated oldBase newBase))
    exact {
      path := Table.path_transferred nofun hthere.live hrow
      writes_le := Nat.le_succ _
      isThere := ⟨(congrArg Handle.deleted hhandle).trans hthere.live, fun r hr => nomatch
        hrow.symm.trans ((congrArg Handle.row hhandle).symm.trans hr)⟩
      site := Table.site?_of_derived (congrArg Handle.key hhandle)
      stored := fun id => by
        rw [hkey]
        exact ⟨fun heq => (nomatch (congrArg Handle.key hhandle).symm.trans heq), nofun⟩
      rows := hrows _ _ }

/-- Where the store works, a symbol is moved along with a block for certain, whether it is stored or
derived. For a stored symbol this is `answers_relocate`, of which only the row matters here. -/
theorem answers_relocate_of_site (hsite : t.site? h = some a) (oldBase newBase : Address) :
    Answers t (relocate h oldBase newBase : Action σ Unit) fun _ t' =>
      t.Displaces h (a.relocated oldBase newBase) t' := by
  rcases hthere.cases_key ht.sound with ⟨r, hkey, hget⟩ | ⟨hkey, hrow⟩
  · obtain rfl : r.address = a := Option.some.inj ((Table.site?_of_stored hkey hget).symm.trans hsite)
    refine (answers_relocate ht hworks hthere hkey hget oldBase newBase).imp fun _ t' hu => ?_
    have hmoved : t'.row? r.id = some { r with address := r.address.relocated oldBase newBase } := by
      rw [hu.row?_eq, hget, Option.map_some, Transfer.row, if_pos rfl]
    have hpath : Table.Path (· ≠ .plan) t t' := by
      refine hu.path.mono ?_
      rintro _ rfl hplans
      cases hplans
    refine ⟨hpath, hu.writes_le, hu.isThere h hthere, ?_, fun id => by rw [hu.key_eq], ?_⟩
    · exact Table.site?_of_stored (r := { r with address := _ }) ((hu.key_eq h).trans hkey) hmoved
    · have hrows : t'.rows = t.rows.map (Transfer.row _) := congrArg Terrain.rows hu.terrain
      rw [hrows]
      refine List.map_congr_left fun x _ => ?_
      simp [Transfer.row, hkey, eq_comm]
  · obtain rfl : (t.handle h).address = a := Option.some.inj ((Table.site?_of_derived hkey).symm.trans hsite)
    exact answers_relocate_of_derived ht hworks hthere hrow oldBase newBase

end

/-- A symbol that is there answers with the address where it lies, and with no other. So the answers
of a symbol before and after a move can be compared through its place in the table. -/
theorem answer_address_iff {s : Situated σ} (ht : s.table.Reliable) (hworks : s.table.store.Works)
    (hthere : s.table.IsThere h) :
    ((telling h (·.address)).run s).1 = .ok a ↔ s.table.site? h = some a := by
  obtain ⟨x, hx, hsite⟩ := answers_site ht hworks hthere s rfl
  rw [hx, hsite, Except.ok.injEq, Option.some.injEq]

/-- A symbol that tells where it lies is there. -/
theorem isThere_of_address (ht : t.Reliable) (h : HandleId) :
    Ends t (telling h (·.address) : Action σ _) fun answer _ => ∀ a, answer = .ok a → t.IsThere h :=
  .current ht.sound h (fun _ _ => nofun) (fun _ _ _ _ => nofun) fun _ hr => .look fun _ _ => hr.isThere ht

end Action

/-! ## There and back -/

/-- **Displacements are exact.** In every space, displacements lead round: distances lead to where
they are from, the displacement of zero leads nowhere, two of them come to their sum, none leads two
addresses to one, and none leads out of the space. And whatever happened since a table was opened
empty, as long as the writes fit a word, and where the store works: a symbol, stored or derived,
that tells that it lies in the space is moved for certain along with a block within the space, and
along with it back again. Then it tells the address that it told before, and all rows are as they
were. -/
theorem Runs.relocations_are_undone (space : Space) :
    space.Circular ∧
    ∀ {σ : Type} {rules : Rules} {s₀ s : Situated σ} {h : HandleId} {a oldBase newBase : Address},
      s₀.table.IsNew rules → Runs Move.any false s₀ s → s.table.store.Works →
      s.table.writes + 2 < UInt64.size → oldBase.space = space → newBase.space = space →
      ((telling h (·.address)).run s).1 = .ok a → a.LiesIn space →
      ∃ s₁ s₂, (relocate h oldBase newBase).run s = (.ok (), s₁) ∧
        (relocate h newBase oldBase).run s₁ = (.ok (), s₂) ∧
        ((telling h (·.address)).run s₁).1 = .ok (a.relocated oldBase newBase) ∧
        ((telling h (·.address)).run s₂).1 = .ok a ∧ s₂.table.rows = s.table.rows := by
  refine ⟨space.circular, fun {σ rules s₀ s h a oldBase newBase} hnew hrun hworks hlt hold hnewBase htold ha => ?_⟩
  have ht := Runs.reliable hnew hrun (by omega)
  have hthere : s.table.IsThere h := isThere_of_address ht h s rfl a htold
  have hsite := (answer_address_iff ht hworks hthere).1 htold
  obtain ⟨_, s₁, hrun₁, hd⟩ := (answers_relocate_of_site ht hworks hthere hsite oldBase newBase).exists_run
  have hwrites₁ := hd.writes_le
  have ht₁ := ht.of_path hd.path (by omega)
  have hworks₁ := hd.path.works (fun hne => hne rfl) hworks
  obtain ⟨_, s₂, hrun₂, hd'⟩ := (answers_relocate_of_site ht₁ hworks₁ hd.isThere hd.site newBase oldBase).exists_run
  rw [Address.relocated_relocated ha hold hnewBase] at hd'
  have hwrites₂ := hd'.writes_le
  have ht₂ := ht₁.of_path hd'.path (by omega)
  have hworks₂ := hd'.path.works (fun hne => hne rfl) hworks₁
  exact ⟨s₁, s₂, hrun₁, hrun₂, (answer_address_iff ht₁ hworks₁ hd.isThere).2 hd.site,
    (answer_address_iff ht₂ hworks₂ hd'.isThere).2 hd'.site, hd.rows_back hsite ht.sound.backend hd'⟩

/-- A derived symbol and a stored one move along with a block that comes to lie across the end of a
space of 32 bits, and back. -/
theorem Runs.relocations_are_undone_past_the_end :
    let s₀ : Situated Unit := ⟨.empty default .standard, (), 0⟩
    let go (s : Situated Unit) (m : Move) := ((m.action Listener.recorder).run s).2
    let s := [.search (.derivedAt (.ram 16)),
      .create ⟨"a", .label, .ram 64, .global, .userDefined, 0, 0, none⟩].foldl go s₀
    let asked (s : Situated Unit) (h : HandleId) := ((telling h (·.address)).run s).1
    s₀.table.IsNew .standard ∧ Runs Move.any false s₀ s ∧ s.table.store.Works ∧ s.table.writes + 2 < UInt64.size ∧
      (s.table.handle 0).isDerived = true ∧ (s.table.handle 1).isDerived = false ∧
      (Address.ram 32).space = Space.ram ∧ (Address.ram 8).space = Space.ram ∧
      asked s 0 = .ok (.ram 16) ∧ (Address.ram 16).LiesIn Space.ram ∧
      asked s 1 = .ok (.ram 64) ∧ (Address.ram 64).LiesIn Space.ram ∧
      (∃ s₁ s₂, (relocate 0 (.ram 32) (.ram 8)).run s = (.ok (), s₁) ∧
        (relocate 0 (.ram 8) (.ram 32)).run s₁ = (.ok (), s₂) ∧ asked s₁ 0 = .ok (.ram 0xfffffff8) ∧
        asked s₂ 0 = .ok (.ram 16) ∧ s₂.table.rows = s.table.rows) ∧
      ∃ s₁ s₂, (relocate 1 (.ram 0xfffffff0) (.ram 8)).run s = (.ok (), s₁) ∧
        (relocate 1 (.ram 8) (.ram 0xfffffff0)).run s₁ = (.ok (), s₂) ∧ asked s₁ 1 = .ok (.ram 88) ∧
        asked s₂ 1 = .ok (.ram 64) ∧ s₂.table.rows = s.table.rows := by
  intro s₀ go s asked
  have hnew : s₀.table.IsNew .standard := .memory _ _ _
  have hchronicle : Chronicle Move.any false s₀ s :=
    .move (.move .refl trivial Chronicle.recorder) trivial Chronicle.recorder
  have hrun := hchronicle.runs
  have hworks := hchronicle.works hnew.sound fun _ _ _ => rfl
  have hlt : s.table.writes + 2 < UInt64.size := by decide +kernel
  have hderived : asked s 0 = .ok (.ram 16) := by decide +kernel
  have hstored : asked s 1 = .ok (.ram 64) := by decide +kernel
  have hlies : (Address.ram 16).LiesIn Space.ram := by decide
  have hlies' : (Address.ram 64).LiesIn Space.ram := by decide
  refine ⟨hnew, hrun, hworks, hlt, by decide +kernel, by decide +kernel, rfl, rfl, hderived, hlies, hstored, hlies',
    ?_, ?_⟩
  · exact (Runs.relocations_are_undone Space.ram).2 hnew hrun hworks hlt rfl rfl hderived hlies
  · exact (Runs.relocations_are_undone Space.ram).2 hnew hrun hworks hlt rfl rfl hstored hlies'

end SymbolTable
