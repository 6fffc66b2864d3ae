import SymbolTable.Proofs.Chronicle
import SymbolTable.Proofs.Identity
import SymbolTable.Proofs.Primaries

/-!
# Addresses without a primary symbol

Whoever refers to the primary symbol of an address means one of the symbols that lie there and may
be primary. A table is `Covered` if wherever there are such symbols, one of them is designated. A
symbol that is stored claims its address, and one that is deleted leaves its designation to the
next, so creating, naming and deleting symbols keep a table covered. Moving them need not: a symbol
that is moved takes its designation along and leaves none behind, and one that is not designated
claims nothing where it goes. A move of a stored symbol keeps the table covered exactly if neither
happens (`Table.Covered.along_iff`).

So in chronicles whose moves keep the table covered, every reference to the primary symbol of an
address at which a label or a function lies belongs to a symbol
(`Chronicle.primaries_are_complete`), and there are others in which it belongs to none
(`Chronicle.primaries_are_not_complete`).
-/

namespace SymbolTable

open SymbolTable.Action
open Table (Path Step upkeep pruning)

variable {σ : Type} {t t' : Table} {may : Deed → Prop} {notify : Listener σ} {h : HandleId} {a : Address}
  {id : SymbolId} {r x : Row} {k : Kind} {b : Store.Backend}

namespace Table

/-! ## Covered tables -/

/-- The row is that of a symbol that may be primary. -/
def Able (t : Table) (r : Row) : Prop :=
  ∃ k, r.kind? = some k ∧ (t.rules.capabilities k).primary = true

/-- A symbol is designated at the address. -/
def Served (t : Table) (a : Address) : Prop :=
  ∃ id, t.facts.primaryAt a = some id

/-- Where there are symbols that may be primary, one is designated. -/
def Covered (t : Table) : Prop :=
  ∀ r ∈ t.rows, t.Able r → t.Served r.address

/-- Whether the symbol of a row may be primary depends on the rules and on the kind of the row
alone. So it may still be if the row was moved, renamed or put into another scope. -/
theorem Able.congr (hable : t.Able r) (hrules : t'.rules = t.rules) (htag : x.tag = r.tag) : t'.Able x := by
  obtain ⟨k, hk, hprimary⟩ := hable
  refine ⟨k, ?_, ?_⟩
  · rw [Row.kind?, htag]
    exact hk
  · rw [hrules]
    exact hprimary

/-- A symbol of an eligible row may be primary. -/
theorem Eligible.able (heligible : t.Eligible a id) (hget : t.row? id = some r) : t.Able r := by
  obtain ⟨x, k, hget', -, hk, hprimary⟩ := heligible
  cases hget'.symm.trans hget
  exact ⟨k, hk, hprimary⟩

/-- To designate a symbol leaves nobody without one at another address. At this address it is the
one that is designated, whoever was so before. -/
theorem Served.setPrimary (hserved : t.Served a) (c : Address) (id : SymbolId) :
    Served { t with facts := t.facts.setPrimary c (some id) } a := by
  obtain ⟨i, hi⟩ := hserved
  by_cases hac : a = c
  · exact ⟨id, by rw [Facts.primaryAt_setPrimary, if_pos hac]⟩
  · exact ⟨i, by rw [Facts.primaryAt_setPrimary, if_neg hac, hi]⟩

/-- Where somebody is designated already, it stays so when a symbol claims an address. It becomes
designated itself only where nobody is. -/
theorem Served.claimPrimary (hserved : t.Served a) (c : Address) (id : SymbolId) (k : Kind) :
    (t.claimPrimary c id k).Served a := by
  unfold Table.claimPrimary
  split
  · exact hserved.setPrimary c id
  · exact hserved

/-- Where a symbol that may be primary claims its address, one is designated. If it does not become
designated itself, this is because another one is. -/
theorem served_claimPrimary (hprimary : (t.rules.capabilities k).primary = true) :
    (t.claimPrimary a id k).Served a := by
  unfold Table.claimPrimary
  split
  · exact ⟨id, by rw [Facts.primaryAt_setPrimary, if_pos rfl]⟩
  · rename_i hclaim
    rw [hprimary, Bool.true_and, Option.isNone_iff_eq_none, ← ne_eq, Option.ne_none_iff_exists'] at hclaim
    exact hclaim

/-- If there are symbols at the address that may be primary, one is designated. -/
def CoversAt (t : Table) (a : Address) : Prop :=
  ∀ r ∈ t.rows, r.address = a → t.Able r → t.Served a

namespace CoversAt

/-- The rows that are there now were there before, and nobody lost the designation. -/
theorem of_subset (hc : t.CoversAt a) (hrules : t'.rules = t.rules) (hserved : t.Served a → t'.Served a)
    (hrows : ∀ x ∈ t'.rows, x ∈ t.rows) : t'.CoversAt a :=
  fun x hx haddress hable => hserved (hc x (hrows x hx) haddress (hable.congr hrules.symm rfl))

/-- Whoever comes next has the designation of a symbol that is gone. The next one is looked for
among all that lie there, in the order of ids, and found if there is any. If the store does not
answer, the removal does not come to its end, which is why it has to work. -/
theorem of_removal (hc : t.CoversAt a) (hworks : t.store.Works) (hremoval : t.Removal h r t') :
    t'.CoversAt a := by
  cases hremoval with
  | undesignated hremoves => exact hc.of_subset rfl id fun x hx => ((hremoves.mem_rows x).1 hx).1
  | unanswered _ hfails => exact absurd hfails hworks.not_mayFail
  | @passed b hremoves hprimary =>
    by_cases har : a = r.address
    · -- the row itself may be designated, so somebody is
      rintro x hx rfl ⟨k, hk, hkprimary⟩
      have hsome : ((t.withBackend b).successor? r.address).isSome := by
        rw [successor?, Option.isSome_map, List.find?_isSome]
        exact ⟨x, List.mem_filter.2 ⟨hx, decide_eq_true har⟩, (Option.any_eq_true _ _).2 ⟨k, hk, hkprimary⟩⟩
      obtain ⟨id, hid⟩ := Option.isSome_iff_exists.1 hsome
      exact ⟨id, by rw [Facts.primaryAt_setPrimary, if_pos har, hid]⟩
    · refine hc.of_subset rfl ?_ fun x hx => ((hremoves.mem_rows x).1 hx).1
      rintro ⟨id, hid⟩
      exact ⟨id, by rw [Facts.primaryAt_setPrimary, if_neg har, hid]⟩

end CoversAt

namespace Covered

/-- The rows that are there now were there before, in their places, and nobody lost a designation. A
row that may be primary was there at its address before, with a kind that may be primary, so
somebody was designated there. -/
theorem of_rows (hc : t.Covered) (hrules : t'.rules = t.rules)
    (hserved : ∀ a, t.Served a → t'.Served a)
    (hrows : ∀ x ∈ t'.rows, ∃ r ∈ t.rows, r.address = x.address ∧ r.tag = x.tag) : t'.Covered := by
  intro x hx hable
  obtain ⟨r, hr, haddress, htag⟩ := hrows x hx
  rw [← haddress]
  exact hserved _ (hc r hr (hable.congr hrules.symm htag))

/-- A symbol that joins the others claims its address. All others are served already. If somebody is
designated at the address, the claim changes nothing, and the address is served. -/
theorem claimPrimary (hk : r.kind? = some k) (hrows : ∀ x ∈ t.rows, x = r ∨ (t.Able x → t.Served x.address)) :
    (t.claimPrimary r.address r.id k).Covered := by
  intro x hx hable
  have hbeside := beside_claimPrimary t r.address r.id k
  rw [hbeside.rows_eq] at hx
  replace hable : t.Able x := hable.congr hbeside.rules.symm rfl
  rcases hrows x hx with rfl | hserved
  · obtain ⟨k', hk', hprimary⟩ := hable
    cases hk.symm.trans hk'
    exact served_claimPrimary hprimary
  · exact (hserved hable).claimPrimary _ _ _

/-- A fresh row joins the others, and its symbol claims its address. At its address somebody is
designated then, and at all others nothing has changed. -/
theorem of_fresh (hc : t.Covered) (hrules : t'.rules = t.rules) (hfacts : t'.facts = t.facts)
    (hs : t.Sound) (hstores : t.Stores r b) (hrows : t'.rows = b.rows) (htag : r.tag = k.tag) :
    (t'.claimPrimary r.address r.id k).Covered := by
  refine claimPrimary (Kind.ofTag?_eq_some_iff.2 htag) fun x hx => ?_
  rw [hrows, hstores.mem_rows hs] at hx
  refine hx.imp_right fun ⟨hx, _⟩ hable => ?_
  obtain ⟨id, hid⟩ := hc x hx (hable.congr hrules.symm rfl)
  exact ⟨id, hfacts ▸ hid⟩

/-- A table stays covered when a symbol is stored: it claims its address if it may. The symbol that
is derived from there is dropped, but it is no row, so nobody misses a designation by it. -/
theorem of_created (hc : t.Covered) (hs : t.Sound) (hcreated : t.Created t') : t'.Covered := by
  cases hcreated with
  | draw => exact hc.of_rows rfl (fun _ h => h) fun x hx => ⟨x, hs.rows_draw ▸ hx, rfl, rfl⟩
  | @insert k row b htag hstores =>
    exact hc.of_fresh (sameFrame_withFresh t row b).rules (facts_withFresh t row b) hs hstores
      (rows_withFresh t row b) htag
  | @create k row b s htag hstores =>
    have hfacts : ((t.withFresh row b).adopt (.stored row.id) s).facts = t.facts := facts_withFresh t row b
    exact hc.of_fresh (sameFrame_withFresh t row b).rules hfacts hs hstores (rows_withFresh t row b) htag

/-- A table stays covered when a row is written. An edit changes neither the kind of a symbol nor
where it lies. If the row is that of a derived symbol that is stored, it claims its address as a new
one does. -/
theorem of_written {into : Scope → Prop} (hc : t.Covered) (hs : t.Sound) (he : t.Exact)
    (hwritten : t.Written into t') : t'.Covered := by
  cases hwritten with
  | draw => exact hc.of_rows rfl (fun _ h => h) fun x hx => ⟨x, hs.rows_draw ▸ hx, rfl, rfl⟩
  | @edit h r r' b hrow hedits _ hputs =>
    refine hc.of_rows rfl (fun _ h => h) fun x hx => ?_
    rcases (hputs.mem_rows x).1 hx with rfl | ⟨hx, -⟩
    · have haddress := hedits.address_eq nofun
      exact ⟨r, mem_of_row? ((he.mirrors h).row r hrow), haddress.symm, hedits.tag_eq.symm⟩
    · exact ⟨x, hx, rfl, rfl⟩
  | promote hlive hrow htag haddress hstores => exact hc.of_fresh rfl rfl hs hstores rfl htag

/-- Whoever comes next has the designation of a symbol that is gone. -/
theorem of_removal (hc : t.Covered) (hworks : t.store.Works) (hremoval : t.Removal h r t') : t'.Covered := by
  intro x hx hable
  have hat : t.CoversAt x.address := fun y hy haddress hable => haddress ▸ hc y hy hable
  exact hat.of_removal hworks hremoval x hx rfl hable

/-- A variable gets another address alone. It is not missed where it was, nor where it comes. Under
steady rules it may not be primary, so it is not one of those that need somebody designated. -/
theorem alone (hc : t.Covered) (hs : t.Sound) (hrules : t.rules.Steady)
    (hrow : (t.handle h).row = some r) (hmovable : t.rules.movable (t.handle h).kind = true)
    (hputs : t.store.backend.Puts { r with address := a } b) :
    (t.written h { r with address := a } b).Covered := by
  intro x hx hable
  rcases (hputs.mem_rows x).1 hx with rfl | ⟨hx, -⟩
  · obtain ⟨k, hk, hprimary⟩ := hable
    have hprimary : (t.rules.capabilities k).primary = true := hprimary
    cases hk.symm.trans (Kind.ofTag?_eq_some_iff.2 ((hs.inOrder h).tag r hrow))
    rw [hrules _ hmovable] at hprimary
    cases hprimary
  · exact hc x hx hable

end Covered

/-! ## Moves that keep a table covered -/

/-- The row can go to the address without leaving another one where nobody is designated: if it is
designated, it leaves no symbol behind that may be primary, and if it is not and may be, there is
somebody who is where it goes. -/
def Leaves (t : Table) (r : Row) (a : Address) : Prop :=
  a ≠ r.address → t.Able r →
    if t.facts.primaryAt r.address = some r.id then
      ∀ x ∈ t.rows, x.address = r.address → t.Able x → x.id = r.id
    else t.Served a

instance (t : Table) (r : Row) : Decidable (t.Able r) :=
  decidable_of_iff (r.kind?.any (t.rules.capabilities · |>.primary) = true) (Option.any_eq_true _ _)

instance (t : Table) (a : Address) : Decidable (t.Served a) :=
  decidable_of_iff ((t.facts.primaryAt a).isSome = true) Option.isSome_iff_exists

instance (t : Table) (r : Row) (a : Address) : Decidable (t.Leaves r a) :=
  inferInstanceAs (Decidable (a ≠ r.address → t.Able r →
    if t.facts.primaryAt r.address = some r.id then
      ∀ x ∈ t.rows, x.address = r.address → t.Able x → x.id = r.id
    else t.Served a))

/-- Whether a row may leave its address for another depends on the rules, the designations and the
rows. -/
theorem Leaves.congr (hleaves : t.Leaves r a) (hrules : t'.rules = t.rules) (hfacts : t'.facts = t.facts)
    (hrows : t'.rows = t.rows) : t'.Leaves r a := by
  unfold Leaves Able Served at *
  rwa [hrules, hfacts, hrows]

/-- A designation that is another symbol's is not moved. -/
theorem movePrimary_of_ne {old : Address} (hother : t.facts.primaryAt old ≠ some id) (new : Address) :
    t.movePrimary old new id = t :=
  if_pos hother

/-- A designation that is moved is gone where it was, and where it goes there is one. At all other
addresses nothing changes. That the two are different is needed, for a designation that is moved in
place stays. -/
theorem served_movePrimary {old new : Address} (hprimary : t.facts.primaryAt old = some id)
    (hne : new ≠ old) (c : Address) :
    (t.movePrimary old new id).Served c ↔ c ≠ old ∧ (c = new ∨ t.Served c) := by
  have hleft : (t.facts.setPrimary old none).primaryAt new = t.facts.primaryAt new := by
    rw [Facts.primaryAt_setPrimary, if_neg hne]
  unfold Served Table.movePrimary
  rw [if_neg (not_not.2 hprimary)]
  dsimp only
  rw [hleft]
  by_cases hold : c = old
  · subst hold
    split <;> simp [Facts.primaryAt_setPrimary, hne.symm]
  · by_cases hnew : c = new
    · subst hnew
      cases hsome : t.facts.primaryAt c <;> simp [Facts.primaryAt_setPrimary, hold, hsome]
    · split <;> simp [Facts.primaryAt_setPrimary, hold, hnew]

section
variable (hc : t.Covered) (hne : a ≠ r.address) (hputs : t.store.backend.Puts { r with address := a } b)

include hc hne hputs

/-- A designated symbol is not missed where it goes, but where it was. Where it goes it is
designated, unless another one is, and then that one is. Where it was there must be no other that
may be primary, and this is the condition. -/
theorem Covered.along_iff_of_designated (hprimary : t.facts.primaryAt r.address = some r.id) :
    ((t.written h { r with address := a } b).movePrimary r.address a r.id).Covered ↔
      ∀ x ∈ t.rows, x.address = r.address → t.Able x → x.id = r.id := by
  have hbeside := beside_movePrimary (t.written h { r with address := a } b) r.address a r.id
  have hserved := served_movePrimary (t := t.written h { r with address := a } b) hprimary hne
  have hmem (x : Row) : x ∈ ((t.written h { r with address := a } b).movePrimary r.address a r.id).rows ↔
      x = { r with address := a } ∨ x ∈ t.rows ∧ x.id ≠ r.id := by
    rw [hbeside.rows_eq]
    exact hputs.mem_rows x
  constructor
  · intro hcovered x hx haddress hable
    by_contra hxr
    have hx := hcovered x ((hmem x).2 (.inr ⟨hx, hxr⟩)) (hable.congr hbeside.rules rfl)
    exact ((hserved _).1 hx).1 haddress
  · intro hleaves x hx hable
    replace hable : t.Able x := hable.congr hbeside.rules.symm rfl
    rcases (hmem x).1 hx with rfl | ⟨hx, hxr⟩
    · exact (hserved _).2 ⟨hne, .inl rfl⟩
    · exact (hserved _).2 ⟨fun haddress => hxr (hleaves x hx haddress hable), .inr (hc x hx hable)⟩

omit hne in
/-- A symbol that is not designated is not missed where it was, and claims nothing where it goes. If
it may be primary itself, somebody has to be designated where it goes, and this is the condition. -/
theorem Covered.along_iff_of_not_designated (hother : t.facts.primaryAt r.address ≠ some r.id) :
    ((t.written h { r with address := a } b).movePrimary r.address a r.id).Covered ↔
      (t.Able r → t.Served a) := by
  rw [movePrimary_of_ne (t := t.written h { r with address := a } b) hother]
  constructor
  · intro hcovered hable
    exact hcovered { r with address := a } ((hputs.mem_rows _).2 (.inl rfl)) (hable.congr rfl rfl)
  · intro hserved x hx hable
    rcases (hputs.mem_rows x).1 hx with rfl | ⟨hx, -⟩
    · exact hserved (hable.congr rfl rfl)
    · exact hc x hx hable

/-- A stored symbol goes to another address with its designation. The table stays covered exactly if
it leaves no address that way. -/
theorem Covered.along_iff (hable : t.Able r) :
    ((t.written h { r with address := a } b).movePrimary r.address a r.id).Covered ↔ t.Leaves r a := by
  unfold Leaves
  split
  · rename_i hprimary
    rw [hc.along_iff_of_designated hne hputs hprimary]
    exact ⟨fun hleaves _ _ => hleaves, fun hleaves => hleaves hne hable⟩
  · rename_i hother
    rw [hc.along_iff_of_not_designated hputs hother]
    exact ⟨fun hserved _ => hserved, fun hserved => hserved hne⟩

end

end Table

/-! ## The course of covered tables -/

/-- The course on which tables stay regular and covered. -/
def Course.covering (may : Deed → Prop) : Course :=
  .keeping may (fun t => t.Regular ∧ t.Covered) fun t t' hs he hstride ⟨hregular, hc⟩ => by
    have hrows : t'.rows = t.rows := congrArg (·.backend.rows) hstride.step.upkeep.1
    refine ⟨hregular.of_upkeep hs he hstride, hc.of_rows hstride.step.sameFrame.rules ?_ ?_⟩
    · rintro a ⟨id, hid⟩
      exact ⟨id, hstride.facts ▸ hid⟩
    · exact fun x hx => ⟨x, hrows ▸ hx, rfl, rfl⟩

namespace Course

/-- What keeps tables regular is on the course if they are covered at the end of it. So what is
shown for regular tables can be used, and only `hkeep` is to be shown besides. -/
theorem covering_of_regular (hrel : (regular may).rel t t')
    (hkeep : t.Sound → t'.drawn < UInt64.size - 1 → t.Exact → t.Regular → t.Covered → t'.Covered) :
    (covering may).rel t t' := by
  refine ⟨hrel.1, fun hs hlt he ⟨hregular, hc⟩ => ?_⟩
  obtain ⟨he', hregular'⟩ := hrel.keeps hs hlt he hregular
  exact ⟨he', hregular', hkeep hs hlt he hregular hc⟩

/-- It matters neither what is noted and told on this course nor which members are listed. -/
theorem aloof_covering : (covering may).Aloof := fun _ _ hs hbeside hfacts => by
  refine covering_of_regular (aloof_regular hs hbeside hfacts) fun _ _ _ _ hc =>
    hc.of_rows hbeside.rules ?_ ?_
  · rintro a ⟨id, hid⟩
    exact ⟨id, hfacts ▸ hid⟩
  · exact fun x hx => ⟨x, hbeside.rows_eq ▸ hx, rfl, rfl⟩

/-- Symbols may be stored, named and marked on this course where writing is allowed. Such moves are
on the course of regular tables already, so only that nobody loses a designation is left to be
shown. -/
theorem covering_writes (hmay : may .write) : (covering may).Writes where
  write _ _ hs hwritten :=
    covering_of_regular ((regular_writes hmay).write hs hwritten) fun hs _ he _ hc =>
      hc.of_written hs he hwritten
  create hs hcreated :=
    covering_of_regular ((regular_writes hmay).create hs hcreated) fun hs _ _ _ hc =>
      hc.of_created hs hcreated
  note := aloof_covering.deaf.notes

/-- Symbols that may be primary may be designated on this course, which leaves no address without
one. -/
theorem covering_designates : (covering may).Designates := fun hs hready hrow hprimary =>
  covering_of_regular (regular_designates hs hready hrow hprimary) fun _ _ _ _ hc =>
    hc.of_rows rfl (fun _ hserved => hserved.setPrimary _ _) fun x hx => ⟨x, hx, rfl, rfl⟩

/-- A deletion goes along this course: whoever comes next at the address is designated. So every row
that is taken out by it passes its designation on. Rows in between are looked at with the same
course, of fewer deeds. -/
theorem covering_removes : (covering pruning).Removes where
  deaf := aloof_covering.deaf
  mark h deleting hs :=
    covering_of_regular (regular_removes.mark h deleting hs) fun _ _ _ _ hc =>
      hc.of_rows rfl (fun _ hserved => hserved) fun x hx => ⟨x, hx, rfl, rfl⟩
  removal {t t₁ t₂ h r} hs _ hrow hrel hkey hremoval := by
    have hpath : Path (Eq .remove) t₁ t₂ := hremoval.path hkey
    have hpruned : Path pruning t t₁ := hrel.1
    refine ⟨hpruned.trans (hpath.mono fun _ hd => .inl hd.symm), fun hs hlt he hI => ?_⟩
    have hs₁ := hpruned.sound hs
    obtain ⟨he₁, hregular₁, hc₁⟩ := hrel.keeps hs (Nat.lt_of_le_of_lt (hpath.drawn_le hs₁) hlt) he hI
    exact ⟨hpath.exact nofun nofun hs₁ (fun _ => hlt) he₁,
      hregular₁.of_removal hs he hrow hpruned hkey hremoval, hc₁.of_removal hregular₁.works hremoval⟩

theorem rel.covering_mono {may' : Deed → Prop} (hrel : (covering may').rel t t')
    (hmay : ∀ d, may' d → may d) : (covering may).rel t t' :=
  ⟨hrel.1.mono hmay, hrel.2⟩

section
variable {t₁ : Table} (hr : t.Refreshed h (.ok ()) t₁) (hrow : (t₁.handle h).row = some r)
  (hputs : t₁.store.backend.Puts { r with address := a } b) (hmay : may .readdress)

include hr hrow hputs hmay

/-- Once its handle was refreshed, a variable may get another address alone. For a kind that moves
alone no designation goes along, and under steady rules none is missed. -/
theorem covering_alone (hs : t.Sound) (hmovable : t₁.rules.movable (t₁.handle h).kind = true) :
    (covering may).rel t (t₁.written h { r with address := a } b) := by
  have hmoved : t₁.Readdressed h a (t₁.written h { r with address := a } b) := .alone hrow hmovable hputs
  have hregular := regular_allows_readdress hmay _ _ h a (hr.path.sound hs) hr.isReady hmoved
  refine (hr.rel hs).trans (covering_of_regular hregular fun hs₁ _ _ hregular₁ hc => ?_)
  exact hc.alone hs₁ hregular₁.rules hrow hmovable hputs

/-- Once its handle was refreshed, a stored symbol may be moved if it leaves no address that way.
The condition is stated of the row before the refresh, which is the same in an exact table. -/
theorem covering_along (hs : t.Sound)
    (hleaves : t.Sound → t.Exact → ∀ x, (t.handle h).row = some x → t.Leaves x a)
    (hne : a ≠ (t₁.handle h).address) :
    (covering may).rel t { (t₁.written h { r with address := a } b).movePrimary (t₁.handle h).address a r.id with
      journal := t₁.journal.moveAddress (t₁.handle h).address a } := by
  have hs₁ := hr.path.sound hs
  have hmoved := regular_allows_readdress hmay _ _ h a hs₁ hr.isReady (.along hrow hputs)
  have hregular : (regular may).rel t _ := (hr.rel hs).trans hmoved
  refine covering_of_regular hregular fun hs hlt he hregular hc => ?_
  have he₁ : t₁.Exact := Path.exact hr.path not_false not_false hs False.elim he
  have hrows : t₁.rows = t.rows := hr.path.rows_eq_of_upkeep
  have hfacts := facts_of_upkept hr.upkept
  have hc₁ : t₁.Covered := hc.of_rows hr.path.sameFrame.rules
    (fun a hserved => hserved.imp fun id hid => hfacts ▸ hid) fun x hx => ⟨x, hrows ▸ hx, rfl, rfl⟩
  have hrow₀ : (t.handle h).row = some r := (hr.row_eq_of_exact he).symm.trans hrow
  have hleaves₁ : t₁.Leaves r a :=
    (hleaves hs he r hrow₀).congr hr.path.sameFrame.rules hfacts hrows
  have haddress := (hs₁.inOrder h).address r hrow
  rw [haddress] at hne ⊢
  suffices hcovered : ((t₁.written h { r with address := a } b).movePrimary r.address a r.id).Covered from
    hcovered
  by_cases hable : t₁.Able r
  · exact (hc₁.along_iff hne hputs hable).2 hleaves₁
  · -- a symbol that is designated may be
    have hkept : (regular may).rel t t₁ := hr.rel hs
    have hregular₁ := (hkept.keeps hs (Nat.lt_of_le_of_lt (hmoved.path.drawn_le hs₁) hlt) he hregular).2
    have hother : t₁.facts.primaryAt r.address ≠ some r.id := fun hprimary =>
      hable ((hregular₁.designated _ _ hprimary).able ((he₁.mirrors h).row r hrow))
    exact (hc₁.along_iff_of_not_designated hputs hother).2 fun h => absurd h hable

end

/-- A derived symbol may be moved to where there is no other one. No designation is its. The rows
and the facts are the same. -/
theorem covering_transferred (hmay : may .relocate) (hlive : (t.handle h).deleted = false)
    (hrow : (t.handle h).row = none) (hfree : t.Underived a) :
    (covering may).rel t (t.transferred h a) := by
  refine ⟨Table.path_transferred hmay hlive hrow, fun hs _ he ⟨hregular, hc⟩ => ?_⟩
  refine ⟨he.transferred hs hlive hrow hfree, ⟨hregular.rules, hregular.works, fun c id hprimary => ?_⟩, ?_⟩
  · exact (hregular.designated c id hprimary).of_row?_eq rfl rfl
  · exact hc.of_rows rfl (fun _ hserved => hserved) fun x hx => ⟨x, hx, rfl, rfl⟩

end Course

/-! ## Moves that keep a table covered -/

/-- A move through the table that takes no derived symbol to the address of another one, and no
stored one away from those that need its designation, or to where it needs one. -/
structure Move.KeepsCover (t : Table) (m : Move) : Prop where
  displacesNone : m.DisplacesNone t
  leaves : ∀ h oldBase newBase r, m = .edit h (.relocate oldBase newBase) → (t.handle h).row = some r →
    t.Leaves r (r.address.relocated oldBase newBase)

namespace Move.KeepsCover

/-- Every move through the table but a relocation keeps it covered, since no other move takes a
designation along. -/
theorem of_ne_relocate {m : Move} (hm : m.goesThrough)
    (hne : ∀ h oldBase newBase, m ≠ .edit h (.relocate oldBase newBase)) : m.KeepsCover t :=
  ⟨.of_ne_relocate hm hne, fun h oldBase newBase _ heq => (hne h oldBase newBase heq).elim⟩

/-- A stored symbol is relocated. The condition is `Leaves` for the row of its handle. A derived
symbol is excepted here, and looked at where no symbol is displaced. -/
theorem relocate {oldBase newBase : Address} (hstored : (t.handle h).isDerived = false)
    (hleaves : ∀ r ∈ (t.handle h).row, t.Leaves r (r.address.relocated oldBase newBase)) :
    (Move.edit h (.relocate oldBase newBase)).KeepsCover t := by
  refine ⟨⟨trivial, ?_⟩, ?_⟩
  · rintro _ _ _ ⟨⟩ hderived
    rw [hstored] at hderived
    cases hderived
  · rintro _ _ _ r ⟨⟩ hrow
    exact hleaves r hrow

/-- A move that keeps the cover leads along the course. For relocations this is the condition in
`Leaves`, read where the handle was refreshed. -/
theorem ends {m : Move} (hm : m.KeepsCover t) (hrecords : notify.Records) (ht : t.Sound) :
    Ends t (m.action notify) fun _ t' => (Course.covering fun _ => True).rel t t' := by
  have hheeds {may : Deed → Prop} : Heeds (.covering may) notify :=
    hrecords.heeds Course.aloof_covering.logs
  by_cases hmoves : ∃ h e, m = .edit h e ∧ (e.deed? = some .readdress ∨ e = .delete)
  · obtain ⟨h, e, rfl, he⟩ := hmoves
    cases e with
    | setAddress a =>
      exact Ends.rel_map (Ends.rel_map (ends_setAddress hheeds ht h a fun t₁ r b hr hrow hk hputs =>
        Course.covering_alone hr hrow hputs trivial ht hk))
    | relocate oldBase newBase =>
      refine Ends.rel_map (Ends.rel_map (ends_relocate ht h oldBase newBase (fun t₁ t₂ hr hne hmoved => ?_)
        fun a hderived ha hne => ?_))
      · cases hmoved with
        | alone hrow hk hputs => exact Course.covering_alone hr hrow hputs trivial ht hk
        | along hrow hputs =>
          refine Course.covering_along hr hrow hputs trivial ht (fun hs he x hx => ?_) hne
          rw [hr.address_eq hs he, (hs.inOrder h).address x hx]
          exact hm.leaves h oldBase newBase x rfl hx
      · subst ha
        obtain ⟨hrow, hlive⟩ := Handle.isDerived_iff.1 hderived
        exact Course.covering_transferred trivial hlive hrow
          (hm.displacesNone.free h oldBase newBase rfl hderived hne)
    | delete =>
      have hdelete := follows_delete hheeds Course.covering_removes h t ht
      exact Ends.rel_map (Ends.rel_map (hdelete.imp fun _ _ hrel => hrel.covering_mono fun _ _ => trivial))
    | _ => rcases he with he | he <;> cases he
  · have hpermitted : m.Permitted (Course.covering fun _ => True).Allows t := by
      refine .of_goesThrough hm.displacesNone.goesThrough (Course.covering_writes trivial) ?_ ?_ ?_
      · rintro h rfl
        exact absurd ⟨h, _, rfl, .inr rfl⟩ hmoves
      · exact fun h e heq he => absurd ⟨h, e, heq, .inl he⟩ hmoves
      · exact fun h oldBase newBase heq _ => absurd ⟨h, _, heq, .inl rfl⟩ hmoves
    exact Move.ends_rel hheeds Course.covering_designates ht hpermitted

end Move.KeepsCover

/-! ## Primary symbols are complete -/

variable {s₀ s : Situated σ}

/-- A chronicle of such moves leads to tables that are covered. The other parts of the conclusion
are what the induction needs besides. -/
theorem Chronicle.covered {rules : Rules} (hnew : s₀.table.IsNew rules) (hrules : rules.Steady)
    (hworks : s₀.table.store.Works)
    (hrun : Chronicle (fun nested t m => nested = false ∧ m.KeepsCover t) false s₀ s)
    (hlt : s.table.drawn < UInt64.size - 1) :
    s.table.Sound ∧ s.table.Exact ∧ s.table.Regular ∧ s.table.Covered := by
  have hrel : (Course.covering fun _ => True).rel s₀.table s.table := by
    refine Chronicle.preserves (I := fun t => (Course.covering fun _ => True).rel s₀.table t)
      (fun _ _ hm => nomatch hm.1) (fun t t' hstill h => ?_) (fun t m notify hm hrecords h => ?_) hrun .refl
    · exact h.trans (.of_still Course.aloof_covering.logs (h.sound hnew.sound) hstill)
    · exact (hm.2.ends hrecords (h.sound hnew.sound)).imp fun _ _ hrel => h.trans hrel
  have hregular : s₀.table.Regular := .of_isNew hnew hrules hworks
  have hcovered : s₀.table.Covered := fun r hr => by
    rw [hnew.rows_eq] at hr
    cases hr
  obtain ⟨he, hI⟩ := hrel.keeps hnew.sound hlt hnew.exact ⟨hregular, hcovered⟩
  exact ⟨hrel.sound hnew.sound, he, hI.1, hI.2⟩

/-- **Primary symbols are complete.** Whatever symbols are created, edited, moved and deleted in a
table with the usual rules that was opened empty: at every address at which a label or a function
lies, one that is stored there is designated, it is found as the primary symbol, and every reference
to the primary symbol of the address belongs to it. A relocation neither takes the designation from
where it is needed nor brings a symbol that is not designated to where nobody is, and no derived
symbol is relocated onto another one. The store works, listeners only record, rows and designations
are changed through moves alone, and there are ids left. -/
theorem Chronicle.primaries_are_complete (hnew : s₀.table.IsNew .standard)
    (hworks : s₀.table.store.Works)
    (hrun : Chronicle (fun nested t m => nested = false ∧ m.KeepsCover t) false s₀ s)
    (hlt : s.table.drawn < UInt64.size - 1) :
    ∀ r ∈ s.table.rows, r.kind? = some .label ∨ r.kind? = some .function →
      ∃ id, s.table.facts.primaryAt r.address = some id ∧ s.table.Eligible r.address id ∧
        ∃ h s', (primaryAt r.address).run s = (.ok (some h), s') ∧ s'.table.Serves h id ∧
          ∀ ref : Reference, ref.owner = .primary → s'.table.handleOwns h ref = true := by
  intro r hr hkind
  obtain ⟨hs, he, hregular, hcovered⟩ := hrun.covered hnew Rules.steady_standard hworks hlt
  have hpath₀ : Path (fun _ => True) s₀.table s.table :=
    hrun.path (fun _ _ m _ => .of_forall (fun _ => trivial) m) hnew.sound
  have hrules : s.table.rules = .standard := hpath₀.sameFrame.rules.trans hnew.rules_eq
  have hable : s.table.Able r := by
    rcases hkind with hk | hk
    · exact ⟨_, hk, by rw [hrules]; rfl⟩
    · exact ⟨_, hk, by rw [hrules]; rfl⟩
  obtain ⟨id, hid⟩ := hcovered r hr hable
  have heligible := hregular.designated _ _ hid
  have hupkept := follows_primaryAt (σ := σ) (c := .upkept) r.address s.table hs
  obtain ⟨_, s', hrun', ⟨h, rfl, hserves⟩, hrel⟩ :=
    ((answers_primaryAt hs he hregular.works hid heligible.hasSymbol).and hupkept).exists_run
  refine ⟨id, hid, heligible, h, s', hrun', hserves, fun ref href => ?_⟩
  -- looking for the symbol changes neither the rows nor the designations
  have hpath := Course.path_of_upkept hrel
  have hkept : (Course.regular fun _ => True).rel s.table s'.table := .of_upkept hs hrel
  have hdrawn : s'.table.drawn < UInt64.size - 1 := by
    rw [Table.drawn, hpath.upkeep.1]
    exact hlt
  obtain ⟨he', hregular'⟩ := hkept.keeps hs hdrawn he hregular
  have hid' : s'.table.facts.primaryAt r.address = some id := by
    rw [Course.facts_of_upkept hrel]
    exact hid
  obtain ⟨x, k, hget, haddress, -⟩ := hregular'.designated _ _ hid'
  have hprimary : s'.table.isPrimary h = true := by
    rw [isPrimary_eq he' hserves (hpath.sound hs) hregular'.designated hget, haddress, hid']
    exact decide_eq_true rfl
  simp only [Table.handleOwns, Table.owns, href, hprimary]

/-- Of two labels at an address the one that is not designated is moved to where a function lies,
and then the other one to where nothing does. The function is deleted, which leaves its designation
to the first. -/
theorem Chronicle.primaries_are_complete_of_moved :
    let s₀ : Situated Unit := ⟨.empty default .standard, (), 0⟩
    let new (name : String) (k : Kind) (a : UInt64) : Move :=
      .create ⟨name, k, .ram a, .global, .userDefined, 0, 0, none⟩
    let go (s : Situated Unit) (m : Move) := ((m.action Listener.recorder).run s).2
    let s := [new "x" .label 16, new "y" .label 16, new "f" .function 32,
      .edit 1 (.relocate (.ram 16) (.ram 32)), .edit 0 (.relocate (.ram 16) (.ram 48)),
      .edit 2 .delete].foldl go s₀
    s₀.table.IsNew .standard ∧ s₀.table.store.Works ∧
      Chronicle (fun nested t m => nested = false ∧ m.KeepsCover t) false s₀ s ∧
      s.table.drawn < UInt64.size - 1 ∧ s.table.rows.map (·.address) = [.ram 48, .ram 32] ∧
      ∀ r ∈ s.table.rows, r.kind? = some .label ∨ r.kind? = some .function →
        ∃ id, s.table.facts.primaryAt r.address = some id ∧ s.table.Eligible r.address id ∧
          ∃ h s', (primaryAt r.address).run s = (.ok (some h), s') ∧ s'.table.Serves h id ∧
            ∀ ref : Reference, ref.owner = .primary → s'.table.handleOwns h ref = true := by
  intro s₀ new go s
  have hnew : s₀.table.IsNew .standard := .memory _ _ _
  have hworks : s₀.table.store.Works := fun _ _ _ => rfl
  have hrun : Chronicle (fun nested t m => nested = false ∧ m.KeepsCover t) false s₀ s :=
    .move (.move (.move (.move (.move (.move .refl
      ⟨rfl, .of_ne_relocate trivial nofun⟩ Chronicle.recorder)
      ⟨rfl, .of_ne_relocate trivial nofun⟩ Chronicle.recorder)
      ⟨rfl, .of_ne_relocate trivial nofun⟩ Chronicle.recorder)
      ⟨rfl, .relocate (by decide) (by decide)⟩ Chronicle.recorder)
      ⟨rfl, .relocate (by decide) (by decide)⟩ Chronicle.recorder)
      ⟨rfl, .of_ne_relocate trivial nofun⟩ Chronicle.recorder
  have hlt : s.table.drawn < UInt64.size - 1 := by decide
  exact ⟨hnew, hworks, hrun, hlt, by decide, Chronicle.primaries_are_complete hnew hworks hrun hlt⟩

/-- Of two labels at an address the one that is designated is moved away. The other one is left
without a designation, and nobody is found as the primary symbol of the address. -/
theorem Chronicle.primaries_are_not_complete :
    let s₀ : Situated Unit := ⟨.empty default .standard, (), 0⟩
    let new (name : String) : Move :=
      .create ⟨name, .label, .ram 16, .global, .userDefined, 0, 0, none⟩
    let go (s : Situated Unit) (m : Move) := ((m.action Listener.recorder).run s).2
    let s := [new "x", new "y", .edit 0 (.relocate (.ram 16) (.ram 32))].foldl go s₀
    s₀.table.IsNew .standard ∧ s₀.table.store.Works ∧
      Chronicle (fun nested _ m => nested = false ∧ m.goesThrough) false s₀ s ∧
      s.table.drawn < UInt64.size - 1 ∧
      (∃ r ∈ s.table.rows, r.kind? = some .label ∧ r.address = .ram 16) ∧
      s.table.facts.primaryAt (.ram 16) = none ∧ ((primaryAt (.ram 16)).run s).1 = .ok none := by
  intro s₀ new go s
  have hrun : Chronicle (fun nested _ m => nested = false ∧ m.goesThrough) false s₀ s :=
    .move (.move (.move .refl ⟨rfl, trivial⟩ Chronicle.recorder) ⟨rfl, trivial⟩ Chronicle.recorder)
      ⟨rfl, trivial⟩ Chronicle.recorder
  exact ⟨.memory _ _ _, fun _ _ _ => rfl, hrun, by decide, by decide, by decide, by decide⟩

end SymbolTable
