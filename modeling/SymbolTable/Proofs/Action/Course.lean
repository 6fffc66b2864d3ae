import SymbolTable.Proofs.Action.Calls
import SymbolTable.Proofs.Table.Proper

/-!
# Courses

A course is a relation between what a table is before and after, which goes on from one to the next:
the steps of some deeds, or what keeps an invariant. Every course takes the strides of upkeep, and
it may allow deeds. An action `Follows` a course if, whatever table it is run at, it ends at one to
which the course leads. So the text of an action is gone through once, for all courses, and an
invariant of tables is one of all actions as soon as the course that keeps it (`Course.keeping`)
allows their deeds.

Where an action does several things of which nobody is told in between, a course is asked about them
as a whole: a symbol that is stored claims its address (`Table.Created`, `Table.Written`), one that
is moved takes its designation along (`Table.Readdressed`), and one that is removed leaves it to the
next (`Table.Removal`).

Deletions nest, and while one is going on, less can be promised of its own symbol than of all
others. So what happens between the marks on a handle may follow a course of its own
(`Course.Nests`).

What is noted in the journal and told to the listener matters to some courses only. The others are
deaf (`Course.Deaf`), and aloof if it does not matter to them either which members of scopes are
listed (`Course.Aloof`). The listener logs what it is told, so on a course that is not deaf it goes
on from the table with the change in its log (`Action.Heeds`).
-/

namespace SymbolTable

open Table (Step Path upkeep)

variable {σ α β : Type} {t t' : Table} {may : Deed → Prop} {h : HandleId}

namespace Table

/-! ## Outages -/

/-- Which calls of the store fail is planned from outside. As long as nobody plans anew, a step
finds the plan as it was. -/
theorem Step.outages_eq (hstep : Step may t t') (hplan : ¬ may .plan) :
    t'.store.outages = t.store.outages := by
  cases hstep with
  | aside hbeside => exact congrArg Store.outages hbeside.store
  | plan hmay => exact absurd hmay hplan
  | @insert _ _ row b | @create _ _ row b =>
    have hstore := congrArg Store.outages (store_dropDerived (t.withBackend b) row.address)
    exact hstore
  | _ => rfl

/-- A store that works goes on working along any steps but those that plan outages, so it is enough
to assume of the start of a course that the store works. -/
theorem Path.works (hpath : Path may t t') (hplan : ¬ may .plan) (hworks : t.store.Works) :
    t'.store.Works := by
  induction hpath with
  | refl => exact hworks
  | tail _ hstep ih =>
    rw [Store.Works, hstep.outages_eq hplan]
    exact ih

/-! ## What happens in one go -/

/-- Only designations change where one is claimed. -/
theorem claimPrimary_eq (t : Table) (a : Address) (id : SymbolId) (k : Kind) :
    t.claimPrimary a id k = { t with facts := (t.claimPrimary a id k).facts } := by
  unfold claimPrimary
  split <;> rfl

/-- Only designations change where one is moved. -/
theorem movePrimary_eq (t : Table) (old new : Address) (id : SymbolId) :
    t.movePrimary old new id = { t with facts := (t.movePrimary old new id).facts } := by
  unfold movePrimary
  split <;> rfl

/-- To claim an address touches neither rows nor handles: what is kept next to the designations is
as it was. -/
theorem beside_claimPrimary (t : Table) (a : Address) (id : SymbolId) (k : Kind) :
    t.Beside (t.claimPrimary a id k) := by
  rw [claimPrimary_eq]
  exact ⟨rfl, rfl, rfl, rfl, rfl, rfl⟩

/-- To move a designation touches neither rows nor handles. This is what lets it be taken along with
the row in one stride. -/
theorem beside_movePrimary (t : Table) (old new : Address) (id : SymbolId) :
    t.Beside (t.movePrimary old new id) := by
  rw [movePrimary_eq]
  exact ⟨rfl, rfl, rfl, rfl, rfl, rfl⟩

/-- The handle is not marked deleted, and its copy of its row is current. -/
structure IsReady (t : Table) (h : HandleId) : Prop where
  live : (t.handle h).deleted = false
  current : (t.handle h).row = none ∨ (t.handle h).seenAt = t.store.modificationCount

/-- A handle that is ready is current: it would not be touched if it were made so. One that is
marked deleted is current as well, and not ready. -/
theorem IsReady.isCurrent (hready : t.IsReady h) : t.IsCurrent h :=
  .inr hready.current

/-- Keeping up the handles leaves a handle that is ready alone. -/
theorem IsReady.handle_eq (hready : t.IsReady h) (hpath : Path upkeep t t') :
    t'.handle h = t.handle h :=
  hpath.upkeep.2.2 h (lt_of_live hready.live) hready.isCurrent

/-- A handle that is ready is still ready when handles have been kept up. A handle that has the
current copy is left alone by the upkeep, and the count of writes stays the same. -/
theorem IsReady.of_upkeep (hready : t.IsReady h) (hpath : Path upkeep t t') : t'.IsReady h := by
  have heq := hready.handle_eq hpath
  refine ⟨?_, ?_⟩
  · rw [heq]
    exact hready.live
  · rw [heq, hpath.upkeep.1]
    exact hready.current

/-- No row lies at the address. -/
def Vacant (t : Table) (a : Address) : Prop :=
  ∀ r ∈ t.rows, r.address ≠ a

/-- The check of the code, that no row was found at the address, says that the address is vacant. -/
theorem isEmpty_rowsAt_iff {a : Address} :
    (t.rows.filter (·.address = a)).isEmpty = true ↔ t.Vacant a := by
  rw [List.isEmpty_iff, List.filter_eq_nil_iff]
  exact forall₂_congr fun _ _ => not_congr decide_eq_true_iff

/-- The symbol derived from the address may be pooled: it lies in memory, and no row lies there. -/
structure Derivable (t : Table) (a : Address) : Prop where
  vacant : t.Vacant a
  memory : a.isMemory = true

/-- A step after which the same symbols are designated. The symbol derived from an address is pooled
only where no row lies. -/
structure Stride (may : Deed → Prop) (t t' : Table) : Prop where
  step : Step may t t'
  facts : t'.facts = t.facts
  derivable : ∀ k, t.handles.length ≤ k → (t'.handle k).isDerived = true →
    t.Derivable (t'.handle k).address

namespace Stride

/-- No symbol is pooled. A stride has to say of every new derived symbol that it may be derived, and
here there are no new handles. -/
theorem of_length_eq (hstep : Step may t t') (hfacts : t'.facts = t.facts)
    (hlen : t'.handles.length = t.handles.length) : Stride may t t' := by
  refine ⟨hstep, hfacts, fun k hk hderived => ?_⟩
  rw [handle_of_le (Nat.le_trans (Nat.le_of_eq hlen) hk)] at hderived
  cases hderived

/-- A step beside the facts is a stride on every course, whatever deeds are allowed, for it
designates nobody and adds no handle. -/
theorem aside (hbeside : t.Beside t') (hfacts : t'.facts = t.facts) : Stride may t t' :=
  of_length_eq (.aside hbeside) hfacts (congrArg List.length hbeside.handles)

/-- A symbol is pooled that is not derived, or lies where there is no row. This is where the
exclusion of derived symbols and rows comes from: a derived one is only pooled where it may be. -/
theorem of_adopt {t₁ : Table} {key : Key} {s : Handle} (hstep : Step may t (t₁.adopt key s))
    (hfacts : t₁.facts = t.facts) (hlen : t₁.handles.length = t.handles.length)
    (hs : s.isDerived = true → t.Derivable s.address) : Stride may t (t₁.adopt key s) := by
  refine ⟨hstep, hfacts, fun k hk hderived => ?_⟩
  rw [← hlen] at hk
  rw [handle_adopt] at hderived ⊢
  split
  · rename_i heq
    rw [if_pos heq] at hderived
    exact hs hderived
  · rename_i hne
    rw [if_neg hne, handle_of_le hk] at hderived
    cases hderived

end Stride

/-- The ids of the rows that lie in a scope, as they are listed now. -/
def memberIds (t : Table) (scope : Scope) : List SymbolId :=
  (t.rows.filter (·.parent = scope)).map (·.id)

/-- The table with the members of a scope listed anew. -/
def relisted (t : Table) (scope : Scope) : Table :=
  { t with members := t.members.insert scope (t.store.modificationCount, t.memberIds scope) }

/-- Handles are kept up, and nothing is noted or told. The references are the same, and so are the
lists of members, but one of them may be made anew. -/
structure Tended (t t' : Table) : Prop where
  stride : t.Stride upkeep t'
  journal : t'.journal = t.journal
  log : t'.log = t.log
  references : t'.references = t.references
  members : t'.members = t.members ∨ ∃ scope, t'.members = (t.relisted scope).members

/-- What neither changes the facts nor is told to anybody keeps up the table. The lists of members
and the references are the same here; the case where a list is made anew is the next. -/
theorem Tended.aside (hbeside : t.Beside t') (hfacts : t'.facts = t.facts)
    (hjournal : t'.journal = t.journal) (hlog : t'.log = t.log)
    (hreferences : t'.references = t.references) (hmembers : t'.members = t.members) : t.Tended t' :=
  ⟨.aside hbeside hfacts, hjournal, hlog, hreferences, .inl hmembers⟩

/-- To list the members of a scope anew keeps up the table: the list that is kept is a copy of what
the store says at the moment. -/
theorem tended_relisted (t : Table) (scope : Scope) : t.Tended (t.relisted scope) :=
  ⟨.aside ⟨rfl, rfl, rfl, rfl, rfl, rfl⟩ rfl, rfl, rfl, rfl, .inr ⟨scope, rfl⟩⟩

/-- The table whose listener was told of a change. -/
def logged (t : Table) (e : Event) : Table :=
  { t with log := t.log ++ [e] }

/-- The row of a handle is written. -/
def written (t : Table) (h : HandleId) (r : Row) (b : Store.Backend) : Table :=
  (t.withBackend b).updateHandle h (·.refreshed r (t.withBackend b).store.modificationCount)

/-- A row is stored or edited in one go: an id is drawn for nothing, the row of a handle that is
ready is edited in its place, or a derived symbol is stored and claims its address. Where a row gets
another parent, it is one of those in `into`. What is written was checked to be proper. -/
inductive Written (into : Scope → Prop) (t : Table) : Table → Prop where
  | draw : Written into t (t.withBackend t.store.backend.allocate.2)
  | edit {h : HandleId} {r r' : Row} {b : Store.Backend} (hrow : (t.handle h).row = some r)
      (hedits : t.Edits (Eq .write) (t.handle h) r r') (hinto : r'.parent = r.parent ∨ into r'.parent)
      (hputs : t.store.backend.Puts r' b) (hretains : t.Retains (t.handle h).kind r r') (hready : t.IsReady h) :
      Written into t (t.written h r' b)
  | promote {h : HandleId} {row : Row} {b : Store.Backend} (hlive : (t.handle h).deleted = false)
      (hrow : (t.handle h).row = none) (htag : row.tag = (t.handle h).kind.tag)
      (haddress : row.address = (t.handle h).address) (hstores : t.Stores row b)
      (hparent : row.parent ≠ .global → t.Accepts (t.handle h).kind row.parent)
      (hinto : row.parent = .global ∨ into row.parent) (hproper : t.Proper (t.handle h).kind row)
      (hplaced : (t.rules.capabilities (t.handle h).kind).located = true →
        t.Placed (t.handle h).kind row) :
      Written into t
        (((t.withBackend b).embody h row).claimPrimary row.address row.id (t.handle h).kind)

/-- A new symbol is stored in one go and claims its address. Unless its name can be shown, it gets
no handle. -/
inductive Created (t : Table) : Table → Prop where
  | draw : Created t (t.withBackend t.store.backend.allocate.2)
  | insert {k : Kind} {row : Row} {b : Store.Backend} (htag : row.tag = k.tag) (hstores : t.Stores row b)
      (hparent : t.Accepts k row.parent) (hproper : t.Proper k row) (hplaced : t.Placed k row) :
      Created t ((t.withFresh row b).claimPrimary row.address row.id k)
  | create {k : Kind} {row : Row} {b : Store.Backend} {s : Handle} (htag : row.tag = k.tag)
      (hstores : t.Stores row b) (hparent : t.Accepts k row.parent) (hproper : t.Proper k row)
      (hplaced : t.Placed k row)
      (hs : Handle.ofRow row (t.withFresh row b).store.modificationCount = .ok s) :
      Created t (((t.withFresh row b).adopt (.stored row.id) s).claimPrimary row.address row.id k)

/-- A stride that writes, after which a symbol that is stored may claim its address. -/
def Claimed (t t' : Table) : Prop :=
  ∃ t₁, t.Stride (Eq .write) t₁ ∧ (t' = t₁ ∨
    ∃ r k, r ∈ t₁.rows ∧ r.kind? = some k ∧ t' = t₁.claimPrimary r.address r.id k)

/-- A row with a fresh id designates nobody by itself. The designation comes after it, as a fact of
its own. -/
theorem facts_withFresh (t : Table) (row : Row) (b : Store.Backend) :
    (t.withFresh row b).facts = t.facts := by
  unfold withFresh dropDerived
  split <;> rfl

/-- Rows that may be written into some scopes only may be written into more of them. An edit leaves
the row in its scope or takes it into one of them, and this is the only part that speaks of
scopes. -/
theorem Written.mono {into into' : Scope → Prop} (hw : t.Written into t')
    (hmono : ∀ scope, into scope → into' scope) : t.Written into' t' := by
  cases hw with
  | draw => exact .draw
  | edit hrow hedits hinto hputs hretains hready =>
    exact .edit hrow hedits (hinto.imp_right (hmono _)) hputs hretains hready
  | promote hlive hrow htag haddress hstores hparent hinto hproper hplaced =>
    exact .promote hlive hrow htag haddress hstores hparent (hinto.imp_right (hmono _)) hproper hplaced

/-- What is written in one go is a stride after which the symbol may claim its address. So a course
that takes such strides takes all writes, whichever of them it is. -/
theorem Written.claimed {into : Scope → Prop} (hw : t.Written into t') : t.Claimed t' := by
  cases hw with
  | draw => exact ⟨_, .of_length_eq (.draw rfl) rfl rfl, .inl rfl⟩
  | edit hrow hedits _ hputs =>
    exact ⟨_, .of_length_eq (.edit _ hrow hedits hputs) rfl (length_updateHandle ..), .inl rfl⟩
  | @promote h row b hlive hrow htag haddress hstores hparent =>
    refine ⟨_, .of_length_eq (.promote rfl h hlive hrow htag haddress hstores hparent) rfl List.length_set,
      .inr ⟨row, _, (hstores.puts.mem_rows row).2 (.inl rfl), Kind.ofTag?_eq_some_iff.2 htag, rfl⟩⟩

/-- A stride that writes, with its claim, is made of steps of the deed `write` alone, so all
invariants of steps hold across it. -/
theorem Claimed.path (hc : t.Claimed t') : Path (Eq .write) t t' := by
  obtain ⟨t₁, hstride, rfl | ⟨r, k, -, -, rfl⟩⟩ := hc
  · exact .single hstride.step
  · exact .tail (.single hstride.step) (.aside (beside_claimPrimary _ _ _ _))

/-- A new symbol that claims its address is a stride that writes, as an edit is. Courses need not
tell them apart. The steps are to store the row, to drop the symbol derived from the address, and to
adopt the handle, unless its name cannot be shown. -/
theorem Created.claimed (hc : t.Created t') : t.Claimed t' := by
  cases hc with
  | draw => exact ⟨_, .of_length_eq (.draw rfl) rfl rfl, .inl rfl⟩
  | @insert k row b htag hstores hparent =>
    exact ⟨_, .of_length_eq (.insert rfl k htag hstores hparent) (facts_withFresh ..) (length_withFresh ..),
      .inr ⟨row, k, mem_of_row? hstores.row?_withFresh, Kind.ofTag?_eq_some_iff.2 htag, rfl⟩⟩
  | @create k row b s htag hstores hparent _ _ hs =>
    have hderived : s.isDerived = false := by
      obtain ⟨_, -, rfl⟩ := Handle.eq_of_ofRow hs
      rfl
    exact ⟨_, .of_adopt (.create rfl k htag hstores hparent hs) (facts_withFresh ..)
      (length_withFresh ..) fun h => (nomatch hderived.symm.trans h),
      .inr ⟨row, k, mem_of_row? hstores.row?_withFresh, Kind.ofTag?_eq_some_iff.2 htag, rfl⟩⟩

/-- A stored symbol gets another address: a variable alone, or any symbol with its designation and
its journal. -/
inductive Readdressed (t : Table) (h : HandleId) (a : Address) : Table → Prop where
  | alone {r : Row} {b : Store.Backend} (hrow : (t.handle h).row = some r)
      (hmovable : t.rules.movable (t.handle h).kind = true)
      (hputs : t.store.backend.Puts { r with address := a } b) :
      Readdressed t h a (t.written h { r with address := a } b)
  | along {r : Row} {b : Store.Backend} (hrow : (t.handle h).row = some r)
      (hputs : t.store.backend.Puts { r with address := a } b) :
      Readdressed t h a
        { (t.written h { r with address := a } b).movePrimary (t.handle h).address a r.id with
          journal := t.journal.moveAddress (t.handle h).address a }

/-- Whether its designation goes along or not, the row of the symbol is written. What is done to the
designation stands beside the row, so one lemma on the row serves for both. -/
theorem Readdressed.exists_written {a : Address} (hr : t.Readdressed h a t') :
    ∃ r b, (t.handle h).row = some r ∧ t.store.backend.Puts { r with address := a } b ∧
      (t.written h { r with address := a } b).Beside t' := by
  cases hr with
  | alone hrow _ hputs => exact ⟨_, _, hrow, hputs, ⟨rfl, rfl, rfl, rfl, rfl, rfl⟩⟩
  | along hrow hputs =>
    rw [movePrimary_eq]
    exact ⟨_, _, hrow, hputs, ⟨rfl, rfl, rfl, rfl, rfl, rfl⟩⟩

/-- A symbol gets another address in steps of the deed `readdress` alone, with its designation or
without it. -/
theorem Readdressed.path {a : Address} (hr : t.Readdressed h a t') : Path (Eq .readdress) t t' := by
  obtain ⟨r, b, hrow, hputs, hbeside⟩ := hr.exists_written
  exact .tail (.single (.edit h hrow (.readdress rfl a) hputs)) (.aside hbeside)

/-- A derived symbol at another address, with its journal. -/
def transferred (t : Table) (h : HandleId) (a : Address) : Table :=
  { t.updateHandle h (·.relocated a) with
    pool := t.pool.rekey (.derived (t.handle h).address) (.derived a)
    journal := t.journal.moveAddress (t.handle h).address a }

/-- A derived symbol gets another address in one step of the deed `relocate`, if this is allowed.
The handle has to be live, and there must be no row, or it would be a symbol that is stored. -/
theorem path_transferred {a : Address} (hmay : may .relocate) (hlive : (t.handle h).deleted = false)
    (hrow : (t.handle h).row = none) : Path may t (t.transferred h a) :=
  .tail (.single (.relocate hmay h a hlive hrow)) (.aside ⟨rfl, rfl, rfl, rfl, rfl, rfl⟩)

/-- The symbol that comes first among those at an address that may be primary. -/
def successor? (t : Table) (a : Address) : Option SymbolId :=
  ((t.rows.filter (·.address = a)).find? (·.kind?.any (t.rules.capabilities · |>.primary))).map (·.id)

/-- The row of a stored symbol is taken out, and its designation is passed on. -/
inductive Removal (t : Table) (h : HandleId) (r : Row) : Table → Prop where
  | undesignated {b : Store.Backend} (hremoves : t.store.backend.Removes r.id b)
      (hother : t.facts.primaryAt r.address ≠ some r.id) :
      Removal t h r ((t.withBackend b).release h r.id)
  /-- The store does not say who is next. -/
  | unanswered {b : Store.Backend} (hremoves : t.store.backend.Removes r.id b) {fault : StoreFault}
      (hfails : t.store.MayFail .rowsAt none fault) :
      Removal t h r ((t.withBackend b).release h r.id)
  | passed {b : Store.Backend} (hremoves : t.store.backend.Removes r.id b)
      (hprimary : t.facts.primaryAt r.address = some r.id) :
      Removal t h r { (t.withBackend b).release h r.id with
        facts := t.facts.setPrimary r.address ((t.withBackend b).successor? r.address) }

/-- Whoever is designated, the row of the symbol is taken out. There are three ways in which a
removal ends, and they differ in the designation alone. -/
theorem Removal.exists_release {r : Row} (hr : t.Removal h r t') :
    ∃ b, t.store.backend.Removes r.id b ∧ ((t.withBackend b).release h r.id).Beside t' := by
  cases hr with
  | undesignated hremoves | unanswered hremoves | passed hremoves =>
    exact ⟨_, hremoves, ⟨rfl, rfl, rfl, rfl, rfl, rfl⟩⟩

/-- A removal is not noted before it is done. -/
theorem Removal.journal_eq {r : Row} (hr : t.Removal h r t') : t'.journal = t.journal := by
  cases hr <;> rfl

/-- Nothing is told while a row is taken out. Who listens hears of it afterwards, when the symbol is
buried. -/
theorem Removal.log_eq {r : Row} (hr : t.Removal h r t') : t'.log = t.log := by
  cases hr <;> rfl

/-- A symbol is taken out in steps of the deed `remove` alone. The key of the handle has to be that
of the row, for it is the key by which the handle leaves the pool. -/
theorem Removal.path {r : Row} (hr : t.Removal h r t') (hkey : (t.handle h).key = .stored r.id) :
    Path (Eq .remove) t t' := by
  obtain ⟨b, hremoves, hbeside⟩ := hr.exists_release
  exact .tail (.single (.takeOut rfl h hkey hremoves)) (.aside hbeside)

end Table

/-! ## Departures -/

/-- A row that was taken out, and the name that it showed then. -/
structure Departure where
  row : Row
  name : String

namespace Departure

/-- What is told of it. -/
def event (d : Departure) : Event :=
  ⟨.stored d.row.id, d.row.address, .removed d.name⟩

/-- What is noted of it. -/
def entry (d : Departure) : Journal.Entry :=
  ⟨d.row.address, .stored d.row.id, .removed, d.name⟩

end Departure

/-- The primary symbol at its address gets the references of a symbol that is gone, and the
departure is noted. -/
def Table.bury (t : Table) (d : Departure) : Table :=
  { t with
    references := (t.references.retarget d.row.address d.row.id .primary).2
    journal := t.journal.record d.entry }

/-- The row of a stored symbol is taken out. This is noted and told, unless the store does not say
who is next. -/
inductive Table.Departs (t : Table) (h : HandleId) (r : Row) : Table → Prop where
  | unnoted {t' : Table} (hremoval : t.Removal h r t') {fault : StoreFault}
      (hfails : t.store.MayFail .rowsAt none fault) : Departs t h r t'
  | noted {t' : Table} (hremoval : t.Removal h r t') (name : String) :
      Departs t h r ((t'.bury (Departure.mk r name)).logged (Departure.mk r name).event)

namespace Table.Departs

variable {r : Row}

/-- Whatever is noted, the row of the symbol is taken out. The removal is the same in both cases, so
what is shown of it need not tell them apart. -/
theorem exists_release (hd : t.Departs h r t') :
    ∃ b, t.store.backend.Removes r.id b ∧ ((t.withBackend b).release h r.id).Beside t' := by
  cases hd with
  | unnoted hremoval => exact hremoval.exists_release
  | noted hremoval =>
    obtain ⟨b, hremoves, hbeside⟩ := hremoval.exists_release
    exact ⟨b, hremoves, hbeside.store, hbeside.handles, hbeside.pool, hbeside.settings, hbeside.rules,
      hbeside.closed⟩

/-- A departure goes along steps of the deed `remove`, as the removal in it does: to note it, and to
hand its references on, are steps of upkeep. -/
theorem path (hd : t.Departs h r t') (hkey : (t.handle h).key = .stored r.id) :
    Path (Eq .remove) t t' := by
  obtain ⟨b, hremoves, hbeside⟩ := hd.exists_release
  exact .tail (.single (.takeOut rfl h hkey hremoves)) (.aside hbeside)

end Table.Departs

/-! ## Courses -/

/-- A way for tables to go. -/
structure Course where
  rel : Table → Table → Prop
  refl (t : Table) : rel t t
  trans {t₁ t₂ t₃ : Table} : rel t₁ t₂ → rel t₂ t₃ → rel t₁ t₃
  /-- It leads along steps. -/
  path {t t' : Table} : rel t t' → Path (fun _ => True) t t'
  /-- Handles may be kept up on it. -/
  keepsUp {t t' : Table} : t.Sound → t.Tended t' → rel t t'

namespace Course

variable (c : Course)

/-- On the course it does not matter what is noted and told. -/
def Deaf : Prop :=
  ∀ ⦃t t' : Table⦄, t.Sound → t.Beside t' → t'.facts = t.facts → t'.members = t.members → c.rel t t'

/-- On the course it matters neither what is noted and told nor which members are listed. -/
def Aloof : Prop :=
  ∀ ⦃t t' : Table⦄, t.Sound → t.Beside t' → t'.facts = t.facts → c.rel t t'

/-- On the course it may be noted what happens to the names of symbols that are there. -/
def Notes : Prop :=
  ∀ ⦃t : Table⦄ ⦃e : Journal.Entry⦄, t.Sound → e.action ≠ .removed →
    c.rel t { t with journal := t.journal.record e }

/-- On the course rows may be written, but not into other scopes than `into`. -/
def WritesInto (into : Scope → Prop) : Prop :=
  ∀ ⦃t t' : Table⦄, t.Sound → t.Written into t' → c.rel t t'

/-- What a course has to take for symbols to be stored, named and marked. -/
structure Writes : Prop where
  write : c.WritesInto fun _ => True
  create {t t' : Table} : t.Sound → t.Created t' → c.rel t t'
  note : c.Notes

/-- On the course the listener may be told of changes, other than removals. The references and the
lists of members do not matter to it. -/
structure Logs : Prop where
  log {t : Table} {e : Event} : t.Sound → e.change.sort ≠ .removed → c.rel t (t.logged e)
  cite {t : Table} (references : References) (members : Dict Scope (UInt64 × List SymbolId)) :
    t.Sound → c.rel t { t with references := references, members := members }

/-- What a deaf course has to take for symbols to be deleted. Before the row of a handle is taken
out, it leads through the deletion of what lies in it. The handle was ready before that. -/
structure Removes : Prop where
  deaf : c.Deaf
  mark {t : Table} (h : HandleId) (deleting : Bool) : t.Sound →
    c.rel t (t.updateHandle h fun s => { s with deleting := deleting })
  removal {t t₁ t₂ : Table} {h : HandleId} {r : Row} : t.Sound → t.IsReady h → (t.handle h).row = some r →
    c.rel t t₁ → (t₁.handle h).key = .stored r.id → t₁.Removal h r t₂ → c.rel t t₂

/-- What a course has to take for symbols to be deleted, with another course for what happens
between the marks on the handle: there is also taken that the row of this handle is taken out, after
everything in it. The handle was ready before that. -/
structure Nests (inner : HandleId → Course) : Prop where
  weaken {t t' : Table} (h : HandleId) : c.rel t t' → (inner h).rel t t'
  departs {t t₁ t₂ : Table} {h : HandleId} {r : Row} : t.Sound → t.IsReady h → (t.handle h).deleting = true →
    (t.handle h).row = some r → c.rel t t₁ → (t₁.handle h).key = .stored r.id → t₁.Departs h r t₂ →
    (inner h).rel t t₂
  unmark {t t' : Table} {h : HandleId} : t.Sound → (t.handle h).deleting = false →
    (inner h).rel (t.updateHandle h fun s => { s with deleting := true }) t' →
    c.rel t (t'.updateHandle h fun s => { s with deleting := false })

/-- The course allows a deed. -/
def Allows : Deed → Prop
  | .write => c.Writes
  | .remove => c.Removes
  | .readdress => ∀ (t t' : Table) (h : HandleId) (a : Address), t.Sound → t.IsReady h →
      t.Readdressed h a t' → c.rel t t'
  | .relocate => ∀ (t : Table) (h : HandleId) (a : Address), t.Sound → t.IsReady h →
      (t.handle h).row = none → c.rel t (t.transferred h a)
  | .intrude => ∀ t t' : Table, t.Sound → Step (Eq .intrude) t t' → c.rel t t'
  | .plan => ∀ t t' : Table, t.Sound → t.Drifts t' → c.rel t t'

/-- On the course, a stored symbol that may be primary may be designated. -/
def Designates : Prop :=
  ∀ {t : Table} {h : HandleId} {r : Row}, t.Sound → t.IsReady h → (t.handle h).row = some r →
    (t.rules.capabilities (t.handle h).kind).primary = true →
    c.rel t { t with facts := t.facts.setPrimary (t.handle h).address (some r.id) }

variable {c}

namespace rel

/-- On every course a table may stay as it is. -/
protected theorem refl : c.rel t t :=
  Course.refl c t

/-- One stretch of a course may be followed by another. -/
protected theorem trans {t₁ t₂ t₃ : Table} (h : c.rel t₁ t₂) (h' : c.rel t₂ t₃) : c.rel t₁ t₃ :=
  Course.trans c h h'

/-- Whatever the course allows, it goes along steps of the table, so everything that all steps keep
is kept. -/
protected theorem path (h : c.rel t t') : Path (fun _ => True) t t' :=
  Course.path c h

/-- A course leads from sound tables to sound tables. This is what is used of the actions that went
before, whatever the course is on which they went. -/
theorem sound (h : c.rel t t') (hs : t.Sound) : t'.Sound :=
  h.path.sound hs

end rel

/-- What stands around may change, whatever it is, where outages may be planned. -/
theorem Aloof.of_allows_plan (hplan : c.Allows .plan) : c.Aloof :=
  fun _ _ hs hbeside _ => hplan _ _ hs hbeside.drifts

/-- To be aloof says more than to be deaf: lists of members may differ as well. -/
theorem Aloof.deaf (haloof : c.Aloof) : c.Deaf :=
  fun _ _ hs hbeside hfacts _ => haloof hs hbeside hfacts

/-- The listener of a course that is aloof may log what it likes, since the log is none of what the
course looks at. -/
theorem Aloof.logs (haloof : c.Aloof) : c.Logs where
  log hs _ := haloof hs ⟨rfl, rfl, rfl, rfl, rfl, rfl⟩ rfl
  cite _ _ hs := haloof hs ⟨rfl, rfl, rfl, rfl, rfl, rfl⟩ rfl

/-- On a deaf course anything may be noted, so notes on names in particular. -/
theorem Deaf.notes (hdeaf : c.Deaf) : c.Notes :=
  fun _ _ hs _ => hdeaf hs ⟨rfl, rfl, rfl, rfl, rfl, rfl⟩ rfl rfl

/-- A deaf course goes on as it is while a deletion is going on. The marks on its handle are nothing
to such a course, so they may be left out of account. -/
theorem Removes.nests (hc : c.Removes) : c.Nests fun _ => c where
  weaken _ hrel := hrel
  departs hs hready _ hrow hrel hkey hdeparts := by
    cases hdeparts with
    | unnoted hremoval => exact hc.removal hs hready hrow hrel hkey hremoval
    | noted hremoval name =>
      have hrel₂ := hc.removal hs hready hrow hrel hkey hremoval
      exact hrel₂.trans (hc.deaf (hrel₂.sound hs) ⟨rfl, rfl, rfl, rfl, rfl, rfl⟩ rfl rfl)
  unmark {t t' h} hs _ hrel := by
    have hmarked : c.rel t _ := hc.mark h true hs
    have hrel' := hmarked.trans hrel
    exact hrel'.trans (hc.mark h false (hrel'.sound hs))

namespace Writes

/-- A deaf course takes what is written in one go if it takes strides and claims. Everything else
that has to be taken is beside what the course looks at. So this is how most courses are shown to
take writes. -/
theorem of_strides (hdeaf : c.Deaf)
    (hstride : ∀ {t t' : Table}, t.Sound → t.Stride (Eq .write) t' → c.rel t t')
    (hclaim : ∀ {t : Table} {r : Row} {k : Kind}, t.Sound → r ∈ t.rows → r.kind? = some k →
      c.rel t (t.claimPrimary r.address r.id k)) : c.Writes := by
  have hclaimed {t t' : Table} (hs : t.Sound) (h : t.Claimed t') : c.rel t t' := by
    obtain ⟨t₁, hst, rfl | ⟨r, k, hr, hk, rfl⟩⟩ := h
    · exact hstride hs hst
    · have hrel := hstride hs hst
      exact hrel.trans (hclaim (hrel.sound hs) hr hk)
  exact ⟨fun _ _ hs hw => hclaimed hs hw.claimed, fun hs hc => hclaimed hs hc.claimed, hdeaf.notes⟩

/-- In particular, rows may be written that stay in their scopes. -/
theorem inPlace (hc : c.Writes) : c.WritesInto fun _ => False :=
  fun _ _ hs hw => hc.write hs (hw.mono fun _ => False.elim)

end Writes

/-- A course that goes along the steps of a deed allows it. It is enough to look at paths of that
one deed, whatever else the action does between them. -/
theorem allows_of_path {d : Deed} (hpath : ∀ {t t' : Table}, Path (Eq d) t t' → c.rel t t') :
    c.Allows d := by
  have hdeaf : c.Deaf := fun _ _ _ hbeside _ _ => hpath (.single (.aside hbeside))
  cases d with
  | write =>
    exact .of_strides hdeaf (fun _ hstride => hpath (.single hstride.step))
      fun _ _ _ => hpath (.single (.aside (Table.beside_claimPrimary _ _ _ _)))
  | remove =>
    exact ⟨hdeaf, fun h deleting _ => hpath (.single (.mark rfl h deleting)),
      fun _ _ _ hrel hkey hremoval => hrel.trans (hpath (hremoval.path hkey))⟩
  | readdress => exact fun _ _ _ _ _ _ hreaddressed => hpath hreaddressed.path
  | relocate => exact fun _ _ _ _ hready hrow => hpath (Table.path_transferred rfl hready.live hrow)
  | intrude => exact fun _ _ _ hstep => hpath (.single hstep)
  | plan => exact fun _ _ _ hdrifts => hpath (hdrifts.path rfl)

/-! ## Steps -/

/-- The steps of some deeds. -/
def steps (may : Deed → Prop) : Course where
  rel := Path may
  refl _ := .refl
  trans hpath := hpath.trans
  path hpath := hpath.mono fun _ _ => trivial
  keepsUp _ htended := .single (htended.stride.step.mono fun _ => False.elim)

/-- The steps of deeds are aloof: what is noted, told and listed is kept up along any steps. -/
theorem aloof_steps : (steps may).Aloof :=
  fun _ _ _ hbeside _ => .single (.aside hbeside)

/-- The steps of a deed allow it. -/
theorem allows_steps {d : Deed} (hmay : may d) : (steps may).Allows d :=
  allows_of_path fun hpath => hpath.mono fun _ heq => heq ▸ hmay

/-- Along the steps of any deeds symbols may be designated, since this is upkeep and takes no
deed. -/
theorem designates_steps : (steps may).Designates :=
  fun _ _ _ _ => .single (.aside ⟨rfl, rfl, rfl, rfl, rfl, rfl⟩)

/-! ## Upkeep -/

/-- Handles are kept up and nothing else. -/
def upkept : Course where
  rel := Relation.ReflTransGen Table.Tended
  refl _ := .refl
  trans hrel := hrel.trans
  path hrel := Relation.ReflTransGen.mono
    (fun _ _ htended => Step.mono htended.stride.step fun _ => False.elim) _ _ hrel
  keepsUp _ htended := .single htended

/-- Where handles are only kept up, the table goes along the steps of upkeep, which are on every
course. -/
theorem path_of_upkept (hrel : upkept.rel t t') : Path upkeep t t' :=
  Relation.ReflTransGen.mono (fun _ _ htended => htended.stride.step) _ _ hrel

/-- Where handles are only kept up, the same symbols are designated as before. -/
theorem facts_of_upkept (hrel : upkept.rel t t') : t'.facts = t.facts := by
  induction hrel with
  | refl => rfl
  | tail _ htended ih => exact htended.stride.facts.trans ih

/-- Where handles are only kept up, nothing is noted. -/
theorem journal_of_upkept (hrel : upkept.rel t t') : t'.journal = t.journal := by
  induction hrel with
  | refl => rfl
  | tail _ htended ih => exact htended.journal.trans ih

/-- Where handles are only kept up, the listener hears nothing. -/
theorem log_of_upkept (hrel : upkept.rel t t') : t'.log = t.log := by
  induction hrel with
  | refl => rfl
  | tail _ htended ih => exact htended.log.trans ih

/-- Where handles are only kept up, no reference is added, retargeted or lost. -/
theorem references_of_upkept (hrel : upkept.rel t t') : t'.references = t.references := by
  induction hrel with
  | refl => rfl
  | tail _ htended ih => exact htended.references.trans ih

/-- On every course handles may be kept up. So whatever is shown of upkeep need not be shown for
every course again. The induction is on the upkeep. -/
theorem rel.of_upkept (hs : t.Sound) (hrel : upkept.rel t t') : c.rel t t' := by
  induction hrel with
  | refl => exact .refl
  | tail hbefore htended ih =>
    exact ih.trans (c.keepsUp ((path_of_upkept hbefore).sound hs) htended)

end Course

/-! ## Following a course -/

namespace Action

variable {c : Course}

/-- Wherever it is run, the action goes along the course. -/
def Follows (c : Course) (a : Action σ α) : Prop :=
  ∀ t : Table, t.Sound → Ends t a fun _ t' => c.rel t t'

namespace Follows

/-- An action that only reads follows every course, since every course may stay where it is. Most of
the actions of the code begin with some of these. -/
theorem of_reads {a : Action σ α} (h : Reads a) : Follows c a := by
  intro t _
  refine (h t).imp ?_
  rintro answer _ rfl
  exact .refl

/-- The course goes on with the next action. The tables in between are sound, which may be used of
the next action. A refusal of the first one ends the whole there, which is on the course too. -/
theorem ends_bind {a : Action σ α} {f : α → Action σ β} (ht : t.Sound)
    (ha : Ends t a fun _ t' => c.rel t t')
    (hf : ∀ x t', t'.Sound → Ends t' (f x) fun _ t'' => c.rel t' t'') :
    Ends t (a >>= f) fun _ t' => c.rel t t' := by
  refine .bind ha ?_ fun _ _ hrel => hrel
  intro x t' hrel
  refine (hf x t' (hrel.sound ht)).imp ?_
  intro _ t'' hrest
  exact hrel.trans hrest

/-- Actions that follow a course follow it one after the other, the second for whatever answer the
first gives. If the first is refused, the course ends there. -/
theorem bind {a : Action σ α} {f : α → Action σ β} (ha : Follows c a)
    (hf : ∀ x, Follows c (f x)) : Follows c (a >>= f) := by
  intro t ht
  exact ends_bind ht (ha t ht) fun x t' ht' => hf x t' ht'

/-- A course that led here goes on with the action. That the table is sound there follows from the
course. -/
theorem ends_from {a : Action σ α} (ha : Follows c a) (ht : t.Sound) (hrel : c.rel t t') :
    Ends t' a fun _ t'' => c.rel t t'' := by
  refine (ha t' (hrel.sound ht)).imp ?_
  intro _ t'' hrest
  exact hrel.trans hrest

/-- Where handles are only kept up first, the next action knows so. So it may be used that rows,
references and designations are those from the beginning when the next action starts. -/
theorem ends_bind_upkeep {a : Action σ α} {f : α → Action σ β} (ht : t.Sound)
    (ha : Follows .upkept a)
    (hf : ∀ x t', Path upkeep t t' → t'.Sound → Ends t' (f x) fun _ t'' => c.rel t' t'') :
    Ends t (a >>= f) fun _ t' => c.rel t t' := by
  refine .bind (ha t ht) ?_ fun _ _ hrel => .of_upkept ht hrel
  intro x t' hrel
  have hpath := Course.path_of_upkept hrel
  refine (hf x t' hpath (hpath.sound ht)).imp ?_
  intro _ t'' hrest
  exact (Course.rel.of_upkept ht hrel).trans hrest

/-- To go on in spite of a fault leads where the action led. -/
theorem attempt {a : Action σ α} (ha : Follows c a) : Follows c (attempt a) :=
  fun t ht => .attempt (ha t ht)

/-- To make something else of the answer leads where the action led. -/
theorem map {a : Action σ α} {f : α → β} (ha : Follows c a) : Follows c (f <$> a) :=
  fun t ht => .map (ha t ht) (fun _ _ hrel => hrel) fun _ _ hrel => hrel

/-- Just to answer follows every course. -/
theorem pure (x : α) : Follows c (Pure.pure x : Action σ α) := of_reads (.pure x)

/-- Just to refuse follows every course. -/
theorem fail (fault : Fault) : Follows c (fail fault : Action σ α) := of_reads (.fail fault)

/-- To look at the table follows every course. -/
theorem look (q : Table → α) : Follows c (look q : Action σ α) := of_reads (.look q)

/-- A course is followed through a list of answers, by induction on the list. -/
theorem mapM {f : α → Action σ β} (hf : ∀ x, Follows c (f x)) (xs : List α) :
    Follows c (xs.mapM f) := by
  induction xs with
  | nil => exact .pure []
  | cons x xs ih =>
    rw [List.mapM_cons]
    exact (hf x).bind fun y => ih.bind fun ys => .pure (y :: ys)

/-- A course is followed through a list of deeds, by induction on the list. -/
theorem forM {f : α → Action σ PUnit} (hf : ∀ x, Follows c (f x)) (xs : List α) :
    Follows c (xs.forM f) := by
  induction xs with
  | nil => exact .pure _
  | cons x xs ih => exact (hf x).bind fun _ => ih

end Follows

/-- An entry in the journal that is no removal. -/
theorem follows_record (hnote : c.Notes) {e : Journal.Entry} (he : e.action ≠ .removed) :
    Follows c (change fun t => { t with journal := t.journal.record e } : Action σ Unit) :=
  fun _ ht => .change (hnote ht he)

/-- Whenever it is told of a change, the listener goes along the course. A removal is no part of the
course until it is logged, so of one of these it goes on from there. -/
structure Heeds (c : Course) (notify : Listener σ) : Prop where
  told (e : Event) (s : Situated σ) : s.table.Sound → e.change.sort ≠ .removed →
    c.rel s.table (notify e s).table
  removed (e : Event) (s : Situated σ) : s.table.Sound → e.change.sort = .removed →
    c.rel (s.table.logged e) (notify e s).table

/-- What is logged is nothing to a deaf course. To log an event changes nothing that such a course
asks about, so only what the listener does has to be shown. -/
theorem Heeds.of_deaf {notify : Listener σ} (hdeaf : c.Deaf)
    (hn : ∀ (e : Event) (s : Situated σ), s.table.Sound → c.rel s.table (notify e s).table) :
    Heeds c notify where
  told e s hs _ := hn e s hs
  removed e s hs _ := by
    have hbeside : (s.table.logged e).Beside s.table := ⟨rfl, rfl, rfl, rfl, rfl, rfl⟩
    exact Course.rel.trans (hdeaf ⟨hs.backend, hs.inOrder⟩ hbeside rfl rfl) (hn e s hs)

/-- To log a change and to tell the listener of it goes along a course that the listener heeds. A
removal is set aside here, since what is logged of it is part of the departure itself. -/
theorem follows_emit {notify : Listener σ} (hn : Heeds c notify) (key : Key) (a : Address)
    {change : Change} (hchange : change.sort ≠ .removed) : Follows c (emit notify key a change) := by
  intro t ht
  refine .emit ?_
  rintro s rfl
  exact hn.told _ s ht hchange

/-- A change of the symbol of a handle is logged and told under the key of the handle, as any other
change is. -/
theorem follows_emitFor {notify : Listener σ} (hn : Heeds c notify) (h : HandleId)
    {change : Change} (hchange : change.sort ≠ .removed) : Follows c (emitFor notify h change) :=
  .bind (.look _) fun _ => follows_emit hn _ _ hchange

end Action

end SymbolTable
