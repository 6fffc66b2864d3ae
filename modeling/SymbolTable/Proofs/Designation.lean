import SymbolTable.Proofs.Action.Deletion
import SymbolTable.Proofs.Action.Keeping

/-!
# Designations

Which symbol is primary at an address is kept apart from the rows, and may not outlive what it
depends on: the row that it names has to be there, at that address, and of a kind that may be
primary (`Table.Designated`). Strides keep that up because no row loses its place or its kind by one
(`Table.Stride.designated`). The rest happens where a designation is given, taken along or passed
on: a variable that moves alone is never designated under the usual rules, and the successor of a
symbol that is deleted is one of those that are left.
-/

namespace SymbolTable

open SymbolTable.Action
open Table (Path Step upkeep pruning)

variable {σ : Type} {t t' : Table} {may may' : Deed → Prop} {h : HandleId} {a : Address} {id : SymbolId}

/-- No symbol that can be given another address alone may be primary. -/
def Rules.Steady (rules : Rules) : Prop :=
  ∀ k, rules.movable k = true → (rules.capabilities k).primary = false

/-- Under the usual rules, no variable may be primary. So whoever moves alone leaves no designation
behind. -/
theorem Rules.steady_standard : standard.Steady := by
  intro k h
  cases k with
  | parameter | localVariable | globalVariable => rfl
  | label | function | library | namespaceScope | classScope => cases h

namespace Table

/-! ## Symbols that may be primary -/

/-- The symbol with this id is stored at the address and may be primary. -/
def Eligible (t : Table) (a : Address) (id : SymbolId) : Prop :=
  ∃ r k, t.row? id = some r ∧ r.address = a ∧ r.kind? = some k ∧ (t.rules.capabilities k).primary = true

/-- Wherever a symbol is designated, it may be primary. -/
def Designated (t : Table) : Prop :=
  ∀ a id, t.facts.primaryAt a = some id → t.Eligible a id

namespace Eligible

/-- The row of the symbol keeps its place and its kind. So an edit of other columns leaves it
eligible, and so does whatever happens to other rows. -/
theorem of_row (h : t.Eligible a id) (hrules : t'.rules = t.rules)
    (hrow : ∀ r, t.row? id = some r → ∃ r', t'.row? id = some r' ∧ r'.address = r.address ∧ r'.tag = r.tag) :
    t'.Eligible a id := by
  obtain ⟨r, k, hget, haddress, hk, hprimary⟩ := h
  obtain ⟨r', hget', haddress', htag⟩ := hrow r hget
  refine ⟨r', k, hget', haddress'.trans haddress, ?_, ?_⟩
  · rw [Row.kind?, htag]
    exact hk
  · rw [hrules]
    exact hprimary

/-- Whether a symbol may be primary depends on the rules and on its row alone. -/
theorem of_row?_eq (h : t.Eligible a id) (hrules : t'.rules = t.rules) (hrow : t'.row? id = t.row? id) :
    t'.Eligible a id :=
  h.of_row hrules fun r hget => ⟨r, hrow.trans hget, rfl, rfl⟩

/-- A symbol that may be primary is stored. -/
theorem hasSymbol (h : t.Eligible a id) : t.HasSymbol id := by
  obtain ⟨r, k, hget, -, hk, -⟩ := h
  exact ⟨r, k, hget, hk⟩

/-- The symbol lies nowhere else. -/
theorem address_eq (h : t.Eligible a id) {r : Row} (hget : t.row? id = some r) : a = r.address := by
  obtain ⟨_, _, hget', haddress, -⟩ := h
  cases hget'.symm.trans hget
  exact haddress.symm

/-- The symbol of a handle that has the row that is stored. It lies where its handle says and is of
the kind of the handle, which is one that may be primary. -/
theorem of_handle (hs : t.Sound) {r : Row} (hrow : (t.handle h).row = some r) (hget : t.row? r.id = some r)
    (hprimary : (t.rules.capabilities (t.handle h).kind).primary = true) :
    t.Eligible (t.handle h).address r.id :=
  ⟨r, (t.handle h).kind, hget, ((hs.inOrder h).address r hrow).symm,
    Kind.ofTag?_eq_some_iff.2 ((hs.inOrder h).tag r hrow), hprimary⟩

/-- The symbol that comes next at an address may be primary there. It was found among the rows at
the address by its kind. -/
theorem of_successor? (hs : t.store.backend.Sound) (hnext : t.successor? a = some id) :
    t.Eligible a id := by
  obtain ⟨r, hfind, rfl⟩ := Option.map_eq_some_iff.1 hnext
  have hr := List.mem_of_find?_eq_some hfind
  obtain ⟨hmem, haddress⟩ : r ∈ t.rows ∧ r.address = a := by simpa using hr
  have hable := List.find?_some hfind
  obtain ⟨k, hk, hprimary⟩ := (Option.any_eq_true _ _).1 hable
  exact ⟨r, k, row?_id hs hmem, haddress, hk, hprimary⟩

end Eligible

/-! ## What backs a designation

A row that someone else takes out leaves its designation behind. Nothing is stored under its id any
more, as ids are drawn once, and the designation stays until another symbol is designated there.
Where no row is taken out so, `lapsing` is false. -/

/-- No row is stored under the id, and none will be, since it was drawn before. -/
def Extinct (t : Table) (id : SymbolId) : Prop :=
  id.val.toNat ≤ t.drawn ∧ t.row? id = none

/-- The symbol may be primary at the address, unless this is one where designations may lapse, and
its row is gone. -/
def Backs (lapsing : Address → Prop) (t : Table) (a : Address) (id : SymbolId) : Prop :=
  t.Eligible a id ∨ lapsing a ∧ t.Extinct id

/-- Every designation is backed. -/
def Backed (lapsing : Address → Prop) (t : Table) : Prop :=
  ∀ a id, t.facts.primaryAt a = some id → t.Backs lapsing a id

namespace Backs

variable {lapsing : Address → Prop}

/-- A symbol that is designated and stored may be primary. -/
theorem eligible (hbacks : t.Backs lapsing a id) {r : Row} (hget : t.row? id = some r) : t.Eligible a id := by
  rcases hbacks with heligible | ⟨-, hextinct⟩
  · exact heligible
  · cases hextinct.2.symm.trans hget

/-- An id that is designated was drawn before, whether its row is still there or not. So a fresh row
is not designated by chance. -/
theorem le_drawn (hbacks : t.Backs lapsing a id) (hle : ∀ r ∈ t.rows, r.id.val.toNat ≤ t.drawn) :
    id.val.toNat ≤ t.drawn := by
  rcases hbacks with ⟨r, -, hget, -⟩ | ⟨-, hextinct⟩
  · exact id_of_row? hget ▸ hle r (mem_of_row? hget)
  · exact hextinct.1

/-- What is under the id stays as it is. If it was gone there, it is still gone, and its id is not
drawn another time. -/
theorem of_row?_eq (hbacks : t.Backs lapsing a id) (hrules : t'.rules = t.rules) (hdrawn : t.drawn ≤ t'.drawn)
    (hrow : t'.row? id = t.row? id) : t'.Backs lapsing a id := by
  rcases hbacks with heligible | ⟨hlapsing, hextinct⟩
  · exact .inl (heligible.of_row?_eq hrules hrow)
  · exact .inr ⟨hlapsing, Nat.le_trans hextinct.1 hdrawn, hrow.trans hextinct.2⟩

/-- Another row is written. -/
theorem written (hbacks : t.Backs lapsing a id) (hs : t.Sound) {r : Row} {b : Store.Backend}
    (hputs : t.store.backend.Puts r b) (hne : id ≠ r.id) : (t.written h r b).Backs lapsing a id := by
  refine hbacks.of_row?_eq rfl (Nat.le_of_eq hputs.drawn.symm) ?_
  exact (row?_puts hs.backend hputs id).trans (if_neg hne)

end Backs

namespace Backed

variable {lapsing : Address → Prop}

/-- The rows are the same, and so are the designations. This covers whatever happens to handles and
texts. -/
theorem of_rows_eq (hb : t.Backed lapsing) (hrules : t'.rules = t.rules) (hrows : t'.rows = t.rows)
    (hdrawn : t.drawn ≤ t'.drawn) (hfacts : t'.facts = t.facts) : t'.Backed lapsing := by
  intro a id hprimary
  rw [hfacts] at hprimary
  exact (hb a id hprimary).of_row?_eq hrules hdrawn (row?_congr hrows id)

/-- What else stands around the rows may change. -/
theorem of_beside (hb : t.Backed lapsing) (hbeside : t.Beside t') (hfacts : t'.facts = t.facts) :
    t'.Backed lapsing :=
  hb.of_rows_eq hbeside.rules hbeside.rows_eq (Nat.le_of_eq hbeside.drawn_eq.symm) hfacts

/-- A symbol is designated that may be primary. If another one was designated there, this one takes
its place, and all other addresses are as they were. -/
theorem setPrimary (hb : t.Backed lapsing) (heligible : t.Eligible a id) :
    Backed lapsing { t with facts := t.facts.setPrimary a (some id) } := by
  intro a' id' hprimary
  rw [Facts.primaryAt_setPrimary] at hprimary
  split at hprimary
  · rename_i ha
    cases hprimary
    rw [ha]
    exact .inl heligible
  · exact hb a' id' hprimary

/-- A symbol that is stored may claim its address. If somebody is designated there already, this
changes nothing. It becomes designated only if its kind may be primary, and its row lies at the
address. -/
theorem claimPrimary (hb : t.Backed lapsing) (hs : t.Sound) {r : Row} {k : Kind} (hr : r ∈ t.rows)
    (hk : r.kind? = some k) : (t.claimPrimary r.address r.id k).Backed lapsing := by
  unfold Table.claimPrimary
  split
  · rename_i hable
    rw [Bool.and_eq_true] at hable
    exact hb.setPrimary ⟨r, k, row?_id hs.backend hr, rfl, hk, hable.1⟩
  · exact hb

/-- A fresh row has none of the ids that are designated. They were drawn before, whether their rows
are there or not, and this one was not. So an id that is designated at an address where designations
may lapse is not taken up by another symbol. -/
theorem stores (hb : t.Backed lapsing) (hs : t.Sound) (hle : ∀ r ∈ t.rows, r.id.val.toNat ≤ t.drawn) {row : Row}
    {b : Store.Backend} (hstores : t.Stores row b) (hlt : b.drawn < UInt64.size - 1)
    (hrules : t'.rules = t.rules) (hbackend : t'.store.backend = b) (hfacts : t'.facts = t.facts) :
    t'.Backed lapsing := by
  subst hbackend
  intro a id hprimary
  rw [hfacts] at hprimary
  have hbacks := hb a id hprimary
  refine hbacks.of_row?_eq hrules (hstores.drawn_le hs) ?_
  have hrow : (t.withBackend t'.store.backend).row? id = t.row? id := by
    rw [hstores.row? hs, if_neg (hstores.ne_id hs hlt (hbacks.le_drawn hle))]
  exact (row?_congr (t := t.withBackend t'.store.backend) rfl id).trans hrow

section
variable (hb : t.Backed lapsing) (hs : t.Sound) {r : Row} (hget : t.row? r.id = some r)

include hb hs hget

/-- A row is edited in its place. What makes a symbol eligible are its place and its kind, and
neither is edited. The designations of all other symbols are backed by rows that are the same. -/
theorem edited {r' : Row} {b : Store.Backend} (hid : r'.id = r.id) (htag : r'.tag = r.tag)
    (haddress : r'.address = r.address) (hputs : t.store.backend.Puts r' b) : (t.written h r' b).Backed lapsing := by
  intro a id hprimary
  have hbacks := hb a id hprimary
  by_cases heq : id = r.id
  · subst heq
    refine .inl ((hbacks.eligible hget).of_row rfl fun x hx => ?_)
    cases hx.symm.trans hget
    exact ⟨r', hid ▸ row?_self_of_puts hputs, haddress, htag⟩
  · exact hbacks.written hs hputs (hid ▸ heq)

/-- A symbol that may not be primary gets another address alone. It is nowhere designated. By steady
rules a symbol that can be given another address alone may not be primary, so no designation is lost
by it. -/
theorem alone {k : Kind} (hk : r.kind? = some k) (hable : (t.rules.capabilities k).primary = false)
    {b : Store.Backend} (hputs : t.store.backend.Puts { r with address := a } b) :
    (t.written h { r with address := a } b).Backed lapsing := by
  intro a' id' hprimary
  have hbacks := hb a' id' hprimary
  refine hbacks.written hs hputs ?_
  rintro rfl
  obtain ⟨x, k', hget', -, hk', hprimary'⟩ := hbacks.eligible hget
  cases hget'.symm.trans hget
  cases hk'.symm.trans hk
  cases hprimary'.symm.trans hable

/-- A symbol takes its designation along, unless another one is designated where it goes. At its old
address nobody is designated afterwards, and at the new one either it is or the other one still is.
Both may be primary there. -/
theorem along {b : Store.Backend} (hputs : t.store.backend.Puts { r with address := a } b) :
    ((t.written h { r with address := a } b).movePrimary r.address a r.id).Backed lapsing := by
  have hother {a' : Address} {id' : SymbolId} (hprimary : t.facts.primaryAt a' = some id')
      (hne : a' = r.address → id' ≠ r.id) : (t.written h { r with address := a } b).Backs lapsing a' id' := by
    have hbacks := hb a' id' hprimary
    refine hbacks.written hs hputs ?_
    rintro rfl
    exact hne ((hbacks.eligible hget).address_eq hget) rfl
  unfold movePrimary
  split
  · rename_i hne
    intro a' id' hprimary
    refine hother hprimary ?_
    rintro rfl rfl
    exact hne hprimary
  · rename_i heq
    rw [not_not] at heq
    have hleft : Backed lapsing { t.written h { r with address := a } b with
        facts := t.facts.setPrimary r.address none } := by
      intro a' id' hprimary
      rw [Facts.primaryAt_setPrimary] at hprimary
      split at hprimary
      · cases hprimary
      · rename_i hne
        exact hother hprimary fun heq => absurd heq hne
    dsimp only
    split
    · refine hleft.setPrimary ?_
      obtain ⟨x, k, hget', -, hk, hable⟩ := (hb _ _ heq).eligible hget
      cases hget'.symm.trans hget
      exact ⟨{ r with address := a }, k, row?_self_of_puts hputs, rfl, hk, hable⟩
    · exact hleft

end

/-- A stored symbol gets another address. One that does so alone may not be primary. These are the
two ways to get another address, and each has its lemma. -/
theorem readdressed (hb : t.Backed lapsing) (hs : t.Sound) (hrules : t.rules.Steady)
    (hget : ∀ r, (t.handle h).row = some r → t.row? r.id = some r) (hmoved : t.Readdressed h a t') :
    t'.Backed lapsing := by
  cases hmoved with
  | alone hrow hmovable hputs =>
    exact hb.alone hs (hget _ hrow) (Kind.ofTag?_eq_some_iff.2 ((hs.inOrder h).tag _ hrow)) (hrules _ hmovable) hputs
  | along hrow hputs =>
    rw [(hs.inOrder h).address _ hrow]
    exact hb.along hs (hget _ hrow) hputs

/-- The row of a symbol is taken out, and its designation is passed on if it had one. If the next
one was found, it is one of the rows at the address that may be primary, and if none was, nobody is
designated. -/
theorem removal (hb : t.Backed lapsing) (hs : t.Sound) (hworks : t.store.Works) {r : Row}
    (hrow : ∀ x, t.row? r.id = some x → x.address = r.address) (hremoval : t.Removal h r t') :
    t'.Backed lapsing := by
  have hother {b : Store.Backend} (hremoves : t.store.backend.Removes r.id b) {a : Address}
      {id : SymbolId} (hprimary : t.facts.primaryAt a = some id) (hne : a = r.address → id ≠ r.id) :
      ((t.withBackend b).release h r.id).Backs lapsing a id := by
    have hbacks := hb a id hprimary
    refine hbacks.of_row?_eq rfl (Nat.le_of_eq hremoves.drawn.symm) ?_
    refine (row?_removes hs.backend hremoves id).trans ?_
    split
    · rename_i hid
      subst hid
      refine (Option.eq_none_iff_forall_ne_some.2 fun x hget => ?_).symm
      exact hne ((hbacks.eligible hget).address_eq hget |>.trans (hrow x hget)) rfl
    · rfl
  cases hremoval with
  | undesignated hremoves hne =>
    intro a id hprimary
    refine hother hremoves hprimary ?_
    rintro rfl rfl
    exact hne hprimary
  | unanswered _ hfails => exact absurd hfails hworks.not_mayFail
  | passed hremoves hprimary =>
    intro a id hnext
    rw [Facts.primaryAt_setPrimary] at hnext
    split at hnext
    · rename_i ha
      rw [ha]
      exact .inl (Eligible.of_successor? (t := (t.withBackend _).release h r.id) hremoves.sound hnext)
    · rename_i hne
      exact hother hremoves hnext fun heq => absurd heq hne

/-- A row is taken out by someone else, and its designation lapses if it had one. The premise says
that this is an address where designations may. The id is never drawn again, so nobody takes up the
designation by accident. -/
theorem taken (hb : t.Backed lapsing) (hs : t.Sound) (hle : ∀ r ∈ t.rows, r.id.val.toNat ≤ t.drawn)
    {b : Store.Backend} (hremoves : t.store.backend.Removes id b)
    (hlapsing : ∀ a, t.facts.primaryAt a = some id → lapsing a) : (t.withBackend b).Backed lapsing := by
  intro a id' hprimary
  have hbacks := hb a id' hprimary
  have hrow := row?_removes hs.backend hremoves id'
  by_cases hid : id' = id
  · subst hid
    rw [if_pos rfl] at hrow
    have hdrawn : t.drawn ≤ (t.withBackend b).drawn := Nat.le_of_eq hremoves.drawn.symm
    exact .inr ⟨hlapsing a hprimary, Nat.le_trans (hbacks.le_drawn hle) hdrawn, hrow⟩
  · rw [if_neg hid] at hrow
    exact hbacks.of_row?_eq rfl (Nat.le_of_eq hremoves.drawn.symm) hrow

end Backed

/-! ## What becomes of designations -/

/-- Designations that do not lapse are of symbols that may have them. -/
theorem designated_iff : t.Designated ↔ t.Backed fun _ => False := by
  simp [Designated, Backed, Backs]

/-- A stride keeps designations sound as long as it takes out no row, gives no symbol another
address, and does nothing behind the table's back. -/
theorem Stride.designated (hstride : t.Stride may t') (hremove : ¬ may .remove)
    (hreaddress : ¬ may .readdress) (hintrude : ¬ may .intrude) (hs : t.Sound) (he : t.Exact)
    (hlt : may .write → t'.drawn < UInt64.size - 1) (hd : t.Designated) : t'.Designated := by
  intro a id hprimary
  rw [hstride.facts] at hprimary
  refine (hd a id hprimary).of_row hstride.step.sameFrame.rules fun r hget => ?_
  obtain ⟨r', hget', htag, haddress⟩ := hstride.step.exists_row? hremove hintrude hs hlt he hget
  exact ⟨r', hget', haddress hreaddress, htag⟩

namespace Designated

/-- What else stands around the rows may change. -/
theorem of_beside (hd : t.Designated) (hbeside : t.Beside t') (hfacts : t'.facts = t.facts) :
    t'.Designated :=
  designated_iff.2 ((designated_iff.1 hd).of_beside hbeside hfacts)

/-- Where no row lies, nobody is designated. -/
theorem primaryAt_of_vacant (hd : t.Designated) (hvacant : t.Vacant a) : t.facts.primaryAt a = none := by
  refine Option.eq_none_iff_forall_ne_some.2 fun id hprimary => ?_
  obtain ⟨r, -, hget, haddress, -⟩ := hd a id hprimary
  exact hvacant r (mem_of_row? hget) haddress

/-- A symbol is designated that may be primary. -/
theorem setPrimary (hd : t.Designated) (heligible : t.Eligible a id) :
    Designated { t with facts := t.facts.setPrimary a (some id) } :=
  designated_iff.2 ((designated_iff.1 hd).setPrimary heligible)

/-- A symbol that is stored may claim its address, and designations stay sound. -/
theorem claimPrimary (hd : t.Designated) (hs : t.Sound) {r : Row} {k : Kind} (hr : r ∈ t.rows)
    (hk : r.kind? = some k) : (t.claimPrimary r.address r.id k).Designated :=
  designated_iff.2 ((designated_iff.1 hd).claimPrimary hs hr hk)

/-- Designations stay sound when a symbol gets another address, as long as those that do so alone
may not be primary. -/
theorem readdressed (hd : t.Designated) (hs : t.Sound) (he : t.Exact) (hrules : t.rules.Steady)
    (hmoved : t.Readdressed h a t') : t'.Designated :=
  designated_iff.2 ((designated_iff.1 hd).readdressed hs hrules (he.mirrors h).row hmoved)

/-- The row of a symbol is taken out, and its designation is passed on if it had one. -/
theorem removal (hd : t.Designated) (hs : t.Sound) (hworks : t.store.Works) {r : Row}
    (hrow : ∀ x, t.row? r.id = some x → x.address = r.address) (hremoval : t.Removal h r t') :
    t'.Designated :=
  designated_iff.2 ((designated_iff.1 hd).removal hs hworks hrow hremoval)

end Designated

/-- Where rows are only taken out, those that are left are the same. No row is put by pruning, so
the one that is found now was there before. -/
theorem Path.row_eq_of_pruning (hpruned : Path pruning t t') (hs : t.Sound) {r x : Row}
    (hget : t.row? id = some r) (hx : t'.row? id = some x) : x = r := by
  have hmem := hpruned.rows_subset (mem_of_row? hx)
  have hx' : t.row? id = some x := (row?_eq_some_iff hs.backend).2 ⟨hmem, id_of_row? hx⟩
  cases hx'.symm.trans hget
  rfl

/-! ## Regular tables -/

/-- Symbols that may be primary do not move alone, the store works, and designations are of symbols
that may have them. -/
structure Regular (t : Table) : Prop where
  rules : t.rules.Steady
  works : t.store.Works
  designated : t.Designated

/-- A table stays regular along steps that plan no outages, if designations are sound at the end of
them. -/
theorem Regular.of_path (hregular : t.Regular) (hpath : Path may t t') (hplan : ¬ may .plan)
    (hd : t'.Designated) : t'.Regular :=
  ⟨hpath.sameFrame.rules ▸ hregular.rules, hpath.works hplan hregular.works, hd⟩

/-- A deletion does nothing but take rows out, so the row that is taken out at last is still the one
that the handle had at first. -/
theorem Regular.of_removal {t₁ t₂ : Table} {r : Row} (hregular : t₁.Regular) (hs : t.Sound) (he : t.Exact)
    (hrow : (t.handle h).row = some r) (hpruned : Path pruning t t₁)
    (hkey : (t₁.handle h).key = .stored r.id) (hremoval : t₁.Removal h r t₂) : t₂.Regular := by
  have hget := (he.mirrors h).row r hrow
  refine hregular.of_path (hremoval.path hkey) nofun ?_
  exact hregular.designated.removal (hpruned.sound hs) hregular.works
    (fun x hx => congrArg Row.address (hpruned.row_eq_of_pruning hs hget hx)) hremoval

end Table

/-- A regular table stays so while handles are kept up. -/
theorem Table.Regular.of_upkeep (hregular : t.Regular) (hs : t.Sound) (he : t.Exact)
    (hstride : t.Stride upkeep t') : t'.Regular :=
  hregular.of_path (.single hstride.step) not_false
    (hstride.designated not_false not_false not_false hs he False.elim hregular.designated)

/-- The course on which tables stay regular. -/
def Course.regular (may : Deed → Prop) : Course :=
  .keeping may Table.Regular fun _ _ hs he hstride hregular => hregular.of_upkeep hs he hstride

namespace Course

/-- Steps of deeds that are allowed are on the course if designations are sound at the end of
them. -/
theorem regular_of_path (hpath : Path may' t t') (hmay : ∀ d, may' d → may d)
    (hrelocate : ¬ may' .relocate) (hintrude : ¬ may' .intrude) (hplan : ¬ may' .plan)
    (hkeep : t.Sound → t'.drawn < UInt64.size - 1 → t.Exact → t.Regular → t'.Designated) :
    (regular may).rel t t' :=
  keeping_of_path hmay hpath hrelocate hintrude fun hs hlt he hregular =>
    hregular.of_path hpath hplan (hkeep hs hlt he hregular)

/-- What stands around the rows and the handles changes, and designations are sound after that. Only
`hkeep` has to be shown, as the rules and the outages are the same. -/
theorem regular_of_beside (hbeside : t.Beside t')
    (hkeep : t.Sound → t.Exact → t.Regular → t'.Designated) : (regular may).rel t t' := by
  have hpath : Path upkeep t t' := .single (.aside hbeside)
  exact keeping_of_beside hbeside fun hs he hregular =>
    hregular.of_path hpath not_false (hkeep hs he hregular)

theorem aloof_regular : (regular may).Aloof :=
  fun _ _ _ hbeside hfacts => regular_of_beside hbeside fun _ _ hregular =>
    hregular.designated.of_beside hbeside hfacts

/-- Symbols may be stored, named and marked on this course where writing is allowed. What is stored
makes a stride, on which designations stay sound, and to claim the address of a stored row does so
too. -/
theorem regular_writes (hmay : may .write) : (regular may).Writes := by
  refine .of_strides aloof_regular.deaf (fun {t t'} _ hstride => ?_) fun hs hr hk => ?_
  · have hpath : Path (Eq .write) t t' := .single hstride.step
    refine regular_of_path hpath (fun _ hd => hd ▸ hmay) nofun nofun nofun fun hs hlt he hregular => ?_
    exact hstride.designated nofun nofun nofun hs he (fun _ => hlt) hregular.designated
  · exact regular_of_beside (Table.beside_claimPrimary _ _ _ _) fun _ _ hregular =>
      hregular.designated.claimPrimary hs hr hk

/-- Stored symbols that may be primary may be designated on this course. -/
theorem regular_designates : (regular may).Designates :=
  fun _ _ hrow hable => regular_of_beside ⟨rfl, rfl, rfl, rfl, rfl, rfl⟩ fun hs he hregular =>
    hregular.designated.setPrimary (.of_handle hs hrow ((he.mirrors _).row _ hrow) hable)

/-- Symbols may get another address on this course where this is allowed. Steady rules are a part of
being regular. -/
theorem regular_allows_readdress (hmay : may .readdress) : (regular may).Allows .readdress := by
  intro t t' h a _ _ hmoved
  refine regular_of_path hmoved.path (fun _ hd => hd ▸ hmay) nofun nofun nofun fun hs _ he hregular => ?_
  exact hregular.designated.readdressed hs he hregular.rules hmoved

/-- A deletion goes along this course. That it does nothing but take rows out is used for the last
row, which is read before those in it are deleted. -/
theorem regular_removes : (regular pruning).Removes where
  deaf := aloof_regular.deaf
  mark {t} h deleting _ := by
    have hpath : Path (Eq .remove) t (t.updateHandle h fun s => { s with deleting := deleting }) :=
      .single (.mark rfl h deleting)
    exact regular_of_path hpath (fun _ hd => .inl hd.symm) nofun nofun nofun fun _ _ _ hregular =>
      hregular.designated
  removal {t t₁ t₂ h r} hs _ hrow hrel hkey hremoval := by
    have hpath : Path (Eq .remove) t₁ t₂ := hremoval.path hkey
    have hpruned : Path pruning t t₁ := hrel.1
    refine ⟨hpruned.trans (hpath.mono fun _ hd => .inl hd.symm), fun hs hlt he hregular => ?_⟩
    have hs₁ := hpruned.sound hs
    obtain ⟨he₁, hregular₁⟩ :=
      hrel.keeps hs (Nat.lt_of_le_of_lt (hpath.drawn_le hs₁) hlt) he hregular
    exact ⟨hpath.exact nofun nofun hs₁ (fun _ => hlt) he₁,
      hregular₁.of_removal hs he hrow hpruned hkey hremoval⟩

theorem rel.regular_mono (hrel : (regular may').rel t t') (hmay : ∀ d, may' d → may d) :
    (regular may).rel t t' :=
  ⟨hrel.1.mono hmay, hrel.2⟩

end Course

end SymbolTable
