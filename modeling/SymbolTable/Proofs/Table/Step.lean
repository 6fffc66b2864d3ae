import Mathlib.Logic.Relation
import SymbolTable.Action.Renaming
import SymbolTable.Proofs.Table.View

/-!
# Steps of a table

Whatever an action does to a table, it does in steps: it refreshes a handle, pools a new one, stores
a fresh row, edits the row of a handle, or takes a row out. `Table.Step` says what a step does and
what had been checked before it, so that a property of tables is an invariant of all actions as soon
as it is one of these few steps. Some steps are taken only by some actions. They are named by their
`Deed`, and `Step may` are the steps of the deeds that `may` allows.

No step makes a sound store unsound (`Step.sound`), takes a handle away or gives a stored symbol
another id (`Step.key_stored`).
-/

namespace SymbolTable

/-- What a step may be that not every action takes. -/
inductive Deed where
  /-- Stores a row or edits one, but not its address. -/
  | write
  /-- Takes out the row of a handle. -/
  | remove
  /-- Gives a stored symbol another address. -/
  | readdress
  /-- Gives a derived symbol another address. -/
  | relocate
  /-- Changes a row behind the table's back. -/
  | intrude
  /-- Changes the plan of outages. -/
  | plan
  deriving DecidableEq

namespace Table

variable {t t' : Table}

/-! ## What is checked before a write -/

/-- No named row of a kind has the name, at the address and in the scope, but the row excepted. -/
def NameFree (t : Table) (a : Address) (name : String) (scope : Scope) (tag : UInt8)
    (except? : Option SymbolId) : Prop :=
  ∀ x ∈ t.rows, x.address = a → x.parent = scope → x.tag = tag → x.provenance ≠ .default →
    x.name = name → some x.id = except?

/-- A scope is there and may own symbols of a kind. -/
def Accepts (t : Table) (k : Kind) : Scope → Prop
  | .global => t.rules.acceptsParent k none = true
  | .of id => ∃ r k', t.row? id = some r ∧ r.kind? = some k' ∧ k'.isScope = true ∧
      t.rules.acceptsParent k (some k') = true

/-- The rows on the way from a scope to the global one, or to a parent without a row. -/
inductive Climbs (t : Table) : Scope → List Row → Prop where
  | global : Climbs t .global []
  | lost {id : SymbolId} (h : t.row? id = none) : Climbs t (.of id) []
  | step {id : SymbolId} {r : Row} {rs : List Row} (h : t.row? id = some r)
      (hrest : Climbs t r.parent rs) : Climbs t (.of id) (r :: rs)

/-- An id is drawn, and the row of a symbol is stored under it. -/
structure Stores (t : Table) (row : Row) (b : Store.Backend) : Prop where
  draws : t.store.backend.allocate.1 = .ok row.id
  puts : t.store.backend.allocate.2.Puts row b
  /-- Its name, if it has one, is free. -/
  free : row.provenance ≠ .default →
    t.NameFree row.address row.name row.parent row.tag none

/-- What becomes of the row `r` of a handle. -/
inductive Edits (may : Deed → Prop) (t : Table) (s : Handle) (r : Row) : Row → Prop where
  /-- Neither its name nor its place changes, nor whether it has a name of its own. -/
  | mark (hmay : may .write) {r' : Row} (hid : r'.id = r.id) (htag : r'.tag = r.tag)
      (haddress : r'.address = r.address) (hparent : r'.parent = r.parent) (hname : r'.name = r.name)
      (hprovenance : r'.provenance = .default ↔ r.provenance = .default) : Edits may t s r r'
  /-- It gets a name, which is free, and a scope, which accepts it and does not lie in it. -/
  | rename (hmay : may .write) (plan : Rename)
      (hfree : plan.provenance ≠ .default →
        t.NameFree s.address plan.name plan.scope s.kind.tag s.id?)
      (hparent : plan.scope ≠ s.parent → t.Accepts s.kind plan.scope)
      (houtside : plan.scope ≠ s.parent → ∀ id, s.id? = some id →
        ∃ rs, t.Climbs plan.scope rs ∧ ∀ x ∈ rs, x.id ≠ id) : Edits may t s r (plan.apply r)
  | readdress (hmay : may .readdress) (a : Address) : Edits may t s r { r with address := a }

/-- What becomes of a row stays under its id, whichever deed it is. A mark has this for a condition,
and the other two replace other columns. -/
theorem Edits.id_eq {may : Deed → Prop} {s : Handle} {r r' : Row} (h : t.Edits may s r r') :
    r'.id = r.id := by
  cases h with
  | mark hmay hid => exact hid
  | rename => rfl
  | readdress => rfl

/-- What becomes of a row is of the same kind. So a handle need not ask for its kind again when the
row changes. -/
theorem Edits.tag_eq {may : Deed → Prop} {s : Handle} {r r' : Row} (h : t.Edits may s r r') :
    r'.tag = r.tag := by
  cases h with
  | mark hmay hid htag => exact htag
  | rename => rfl
  | readdress => rfl

/-- Only another address gives a row another place. A name and a mark leave it where it is. -/
theorem Edits.address_eq {may : Deed → Prop} {s : Handle} {r r' : Row} (h : t.Edits may s r r')
    (hreaddress : ¬ may .readdress) : r'.address = r.address := by
  cases h with
  | mark hmay hid htag haddress => exact haddress
  | rename => rfl
  | readdress hmay => exact absurd hmay hreaddress

/-! ## Steps -/

/-- The rows, the handles, and what decides about them are the same. -/
structure Beside (t t' : Table) : Prop where
  store : t'.store = t.store
  handles : t'.handles = t.handles
  pool : t'.pool = t.pool
  settings : t'.settings = t.settings
  rules : t'.rules = t.rules
  closed : t'.closed = t.closed

/-- The same is the same, but the outages may change. -/
structure Drifts (t t' : Table) : Prop where
  backend : t'.store.backend = t.store.backend
  handles : t'.handles = t.handles
  pool : t'.pool = t.pool
  settings : t'.settings = t.settings
  rules : t'.rules = t.rules
  closed : t'.closed = t.closed

/-- What stands around may change with no outage being planned, which is a special case of the one
where outages may change. -/
theorem Beside.drifts (h : t.Beside t') : t.Drifts t' :=
  ⟨congrArg Store.backend h.store, h.handles, h.pool, h.settings, h.rules, h.closed⟩

/-- Nothing happens. -/
theorem Drifts.refl (t : Table) : t.Drifts t :=
  ⟨rfl, rfl, rfl, rfl, rfl, rfl⟩

/-- What stands around changes twice. -/
theorem Drifts.trans {t₁ t₂ t₃ : Table} (h : t₁.Drifts t₂) (h' : t₂.Drifts t₃) : t₁.Drifts t₃ :=
  ⟨h'.backend.trans h.backend, h'.handles.trans h.handles, h'.pool.trans h.pool,
    h'.settings.trans h.settings, h'.rules.trans h.rules, h'.closed.trans h.closed⟩

/-- The table in which a fresh row stands, which leaves no symbol derived from its address. -/
def withFresh (t : Table) (row : Row) (b : Store.Backend) : Table :=
  (t.withBackend b).dropDerived row.address

/-- One step, of which no part can be observed. -/
inductive Step (may : Deed → Prop) (t : Table) : Table → Prop where
  /-- Neither rows nor handles change. -/
  | aside {t' : Table} (h : t.Beside t') : Step may t t'
  /-- The outages change. -/
  | plan (hmay : may .plan) (outages : Store.Outages) :
      Step may t { t with store := { t.store with outages := outages } }
  /-- A symbol that was not pooled is: that of a row, or of an address without rows. -/
  | adopt (s : Handle) (hpool : t.pool.get? s.key = none)
      (hs : (∃ id r, t.row? id = some r ∧ Handle.ofRow r t.store.modificationCount = .ok s) ∨
        ∃ a, s = Handle.derived a) : Step may t (t.adopt s.key s)
  /-- The copy of a row that may be out of date is made current. -/
  | refresh (h : HandleId) {r row : Row} (hlive : (t.handle h).deleted = false)
      (hrow : (t.handle h).row = some r) (hstale : (t.handle h).seenAt ≠ t.store.modificationCount)
      (hget : t.row? r.id = some row) (htag : row.tag = r.tag) :
      Step may t (t.updateHandle h (·.refreshed row t.store.modificationCount))
  /-- The row of a handle turns out to be gone. -/
  | vanish (h : HandleId) {r : Row} (hlive : (t.handle h).deleted = false)
      (hrow : (t.handle h).row = some r) (hstale : (t.handle h).seenAt ≠ t.store.modificationCount)
      (hgone : ∀ row, t.row? r.id = some row → row.tag ≠ r.tag) :
      Step may t (t.abandon h (t.handle h).key)
  /-- An id is drawn for nothing. -/
  | draw (hmay : may .write) : Step may t (t.withBackend t.store.backend.allocate.2)
  /-- A new symbol is stored in a scope that accepts it, but gets no handle. -/
  | insert (hmay : may .write) (k : Kind) {row : Row} {b : Store.Backend} (htag : row.tag = k.tag)
      (hstores : t.Stores row b) (hparent : t.Accepts k row.parent) :
      Step may t (t.withFresh row b)
  /-- A new symbol is stored in a scope that accepts it, and gets a handle. -/
  | create (hmay : may .write) (k : Kind) {row : Row} {b : Store.Backend} {s : Handle}
      (htag : row.tag = k.tag) (hstores : t.Stores row b) (hparent : t.Accepts k row.parent)
      (hs : Handle.ofRow row (t.withFresh row b).store.modificationCount = .ok s) :
      Step may t ((t.withFresh row b).adopt (.stored row.id) s)
  /-- A derived symbol is stored. -/
  | promote (hmay : may .write) (h : HandleId) {row : Row} {b : Store.Backend}
      (hlive : (t.handle h).deleted = false) (hrow : (t.handle h).row = none)
      (htag : row.tag = (t.handle h).kind.tag) (haddress : row.address = (t.handle h).address)
      (hstores : t.Stores row b)
      (hparent : row.parent ≠ .global → t.Accepts (t.handle h).kind row.parent) :
      Step may t ((t.withBackend b).embody h row)
  /-- The row of a handle is edited. -/
  | edit (h : HandleId) {r r' : Row} {b : Store.Backend} (hrow : (t.handle h).row = some r)
      (hedits : t.Edits may (t.handle h) r r') (hputs : t.store.backend.Puts r' b) :
      Step may t ((t.withBackend b).updateHandle h
        (·.refreshed r' (t.withBackend b).store.modificationCount))
  /-- A deletion begins or ends. -/
  | mark (hmay : may .remove) (h : HandleId) (deleting : Bool) :
      Step may t (t.updateHandle h fun s => { s with deleting := deleting })
  /-- The row of a symbol is taken out. -/
  | takeOut (hmay : may .remove) (h : HandleId) {id : SymbolId} {b : Store.Backend}
      (hkey : (t.handle h).key = .stored id) (hremoves : t.store.backend.Removes id b) :
      Step may t ((t.withBackend b).release h id)
  /-- A derived symbol gets another address. -/
  | relocate (hmay : may .relocate) (h : HandleId) (a : Address)
      (hlive : (t.handle h).deleted = false) (hrow : (t.handle h).row = none) :
      Step may t { t.updateHandle h (·.relocated a) with
        pool := t.pool.rekey (.derived (t.handle h).address) (.derived a) }
  /-- A row is put by someone else. -/
  | intrudePut (hmay : may .intrude) {r : Row} {b : Store.Backend}
      (hputs : t.store.backend.Puts r b) : Step may t (t.withBackend b)
  /-- A row is taken out by someone else. -/
  | intrudeTake (hmay : may .intrude) {id : SymbolId} {b : Store.Backend}
      (hremoves : t.store.backend.Removes id b) : Step may t (t.withBackend b)

/-- Steps one after the other. -/
abbrev Path (may : Deed → Prop) : Table → Table → Prop :=
  Relation.ReflTransGen (Step may)

variable {may : Deed → Prop}

/-- Outages are planned, and the rest is aside. A drift is put together from two steps, so it is on
every path whose deeds include planning. -/
theorem Drifts.path (h : t.Drifts t') (hmay : may .plan) : Path may t t' := by
  refine .tail (.single (.plan hmay t'.store.outages)) (.aside ⟨?_, h.handles, h.pool, h.settings,
    h.rules, h.closed⟩)
  show t'.store = ⟨t.store.backend, t'.store.outages⟩
  rw [← h.backend]

/-! ## What no step changes -/

/-- The rules, the settings and being open are the same. -/
structure SameFrame (t t' : Table) : Prop where
  rules : t'.rules = t.rules
  settings : t'.settings = t.settings
  closed : t'.closed = t.closed

/-- Rules, settings and being open stay what they are over any number of steps. -/
theorem SameFrame.trans {t₁ t₂ t₃ : Table} (h : t₁.SameFrame t₂) (h' : t₂.SameFrame t₃) :
    t₁.SameFrame t₃ :=
  ⟨h'.rules.trans h.rules, h'.settings.trans h.settings, h'.closed.trans h.closed⟩

/-- To drop a derived symbol changes neither the rules nor the settings, and does not close the
table. -/
theorem sameFrame_dropDerived (t : Table) (a : Address) : t.SameFrame (t.dropDerived a) := by
  unfold dropDerived
  split <;> exact ⟨rfl, rfl, rfl⟩

/-- To store a fresh row changes neither the rules nor the settings, and does not close the
table. -/
theorem sameFrame_withFresh (t : Table) (row : Row) (b : Store.Backend) :
    t.SameFrame (t.withFresh row b) :=
  (SameFrame.mk rfl rfl rfl : t.SameFrame (t.withBackend b)).trans (sameFrame_dropDerived _ _)

/-- No step changes the rules or the settings, or closes the table. So what follows from them may be
carried over without a look at the step. -/
theorem Step.sameFrame (h : Step may t t') : t.SameFrame t' := by
  cases h with
  | aside h => exact ⟨h.rules, h.settings, h.closed⟩
  | insert => exact sameFrame_withFresh ..
  | create => exact (sameFrame_withFresh ..).trans ⟨rfl, rfl, rfl⟩
  | _ => exact ⟨rfl, rfl, rfl⟩

/-- However many steps there are, the rules and the settings stay, and the table is open if it
was. -/
theorem Path.sameFrame (h : Path may t t') : t.SameFrame t' := by
  induction h with
  | refl => exact ⟨rfl, rfl, rfl⟩
  | tail _ hstep ih => exact ih.trans hstep.sameFrame

/-! ## Sound tables -/

/-- What changes aside leaves every handle alone. -/
theorem Beside.handle (h : t.Beside t') (k : HandleId) : t'.handle k = t.handle k := by
  rw [Table.handle, Table.handle, h.handles]

/-- What changes aside leaves the rows alone. -/
theorem Beside.rows_eq (h : t.Beside t') : t'.rows = t.rows :=
  congrArg (·.backend.rows) h.store

/-- What changes aside draws no id. -/
theorem Beside.drawn_eq (h : t.Beside t') : t'.drawn = t.drawn :=
  congrArg (·.backend.drawn) h.store

/-- To draw an id changes no row, even where it is the last one. -/
theorem Sound.rows_draw (hs : t.Sound) :
    (t.withBackend t.store.backend.allocate.2).rows = t.rows :=
  hs.backend.allocate.2.1

/-- To draw an id takes none back. -/
theorem Sound.drawn_draw (hs : t.Sound) :
    t.drawn ≤ (t.withBackend t.store.backend.allocate.2).drawn :=
  hs.backend.allocate.2.2.2

/-- A table with a fresh row has what keeps this row. The derived symbol that has to go is a matter
of the handles alone. -/
theorem backend_withFresh (t : Table) (row : Row) (b : Store.Backend) :
    (t.withFresh row b).store.backend = b :=
  congrArg Store.backend (store_dropDerived (t.withBackend b) row.address)

@[simp] theorem rows_withFresh (t : Table) (row : Row) (b : Store.Backend) :
    (t.withFresh row b).rows = b.rows :=
  congrArg Store.Backend.rows (backend_withFresh t row b)

@[simp] theorem drawn_withFresh (t : Table) (row : Row) (b : Store.Backend) :
    (t.withFresh row b).drawn = b.drawn :=
  congrArg Store.Backend.drawn (backend_withFresh t row b)

@[simp] theorem writes_withFresh (t : Table) (row : Row) (b : Store.Backend) :
    (t.withFresh row b).writes = b.writes :=
  congrArg Store.Backend.writes (backend_withFresh t row b)

/-- A fresh row joins those that are there. -/
theorem Stores.mem_rows {row : Row} {b : Store.Backend} (h : t.Stores row b) (hs : t.Sound)
    (x : Row) : x ∈ b.rows ↔ x = row ∨ x ∈ t.rows ∧ x.id ≠ row.id := by
  have hrows : t.store.backend.allocate.2.rows = t.rows := hs.rows_draw
  rw [h.puts.mem_rows, hrows]

/-- Storing a fresh row is one write. -/
theorem Stores.writes {row : Row} {b : Store.Backend} (h : t.Stores row b) (hs : t.Sound) :
    b.writes = t.writes + 1 := by
  have hwrites : t.store.backend.allocate.2.writes = t.writes := hs.backend.allocate.2.2.1
  rw [h.puts.writes, hwrites]

/-- The fresh row has the next id, until ids run out. -/
theorem Stores.id_eq {row : Row} {b : Store.Backend} (h : t.Stores row b) (hs : t.Sound)
    (hlt : b.drawn < UInt64.size - 1) : row.id.val.toNat = t.drawn + 1 ∧ b.drawn = t.drawn + 1 := by
  rw [h.puts.drawn] at hlt ⊢
  exact hs.backend.id_of_allocate h.draws hlt

/-- No id drawn before is that of the fresh row. The fresh row has the one that was drawn last. -/
theorem Stores.ne_id {row : Row} {b : Store.Backend} (h : t.Stores row b) (hs : t.Sound)
    (hlt : b.drawn < UInt64.size - 1) {id : SymbolId} (hle : id.val.toNat ≤ t.drawn) : id ≠ row.id := by
  rintro rfl
  have heq := (h.id_eq hs hlt).1
  omega

/-- No id is taken back when a fresh row is stored. -/
theorem Stores.drawn_le {row : Row} {b : Store.Backend} (h : t.Stores row b) (hs : t.Sound) :
    t.drawn ≤ b.drawn := by
  rw [h.puts.drawn]
  exact hs.drawn_draw

/-- The row that is under an id once a fresh row was stored. The draw before it changes no row. -/
theorem Stores.row? {row : Row} {b : Store.Backend} (h : t.Stores row b) (hs : t.Sound)
    (id : SymbolId) :
    (t.withBackend b).row? id = if id = row.id then some row else t.row? id := by
  have hputs := row?_puts (t := t.withBackend t.store.backend.allocate.2) hs.backend.allocate.1
    h.puts id
  rw [row?_congr hs.rows_draw] at hputs
  exact hputs

/-- The fresh row is the row under its id. -/
theorem Stores.row?_withFresh {row : Row} {b : Store.Backend} (h : t.Stores row b) :
    (t.withFresh row b).row? row.id = some row := by
  rw [row?_congr (t := t.withBackend b) (rows_withFresh t row b)]
  exact row?_self_of_puts h.puts

@[simp] theorem length_withFresh (t : Table) (row : Row) (b : Store.Backend) :
    (t.withFresh row b).handles.length = t.handles.length :=
  length_dropDerived (t.withBackend b) row.address

/-- A property that every handle has survives a fresh row if it is one of handles that are marked
deleted, for at most one of them becomes so. -/
theorem forall_withFresh {P : Handle → Prop} (hall : ∀ k, P (t.handle k))
    (hinvalidated : ∀ s : Handle, P s.invalidated) (row : Row) (b : Store.Backend) :
    ∀ k, P ((t.withFresh row b).handle k) :=
  forall_dropDerived (t := t.withBackend b) hall hinvalidated row.address

/-- No step makes a sound table unsound. The proof goes through the steps. For each it is shown that
the backend is still in order, and that the handles that were changed agree with their rows. -/
theorem Step.sound (h : Step may t t') (hs : t.Sound) : t'.Sound := by
  have hall := hs.inOrder
  cases h with
  | aside h =>
    refine ⟨?_, fun k => ?_⟩
    · rw [h.store]
      exact hs.backend
    · rw [h.handle]
      exact hall k
  | plan => exact ⟨hs.backend, hall⟩
  | adopt s hpool hnew =>
    refine ⟨hs.backend, forall_adopt hall _ ?_⟩
    rcases hnew with ⟨id, r, -, hofRow⟩ | ⟨a, rfl⟩
    · exact Handle.inOrder_ofRow hofRow
    · exact Handle.inOrder_derived a
  | refresh h hlive hrow hstale hget htag =>
    refine ⟨hs.backend, forall_updateHandle hall ?_⟩
    exact (hall h).refreshed hrow (id_of_row? hget) htag _
  | vanish h =>
    refine ⟨hs.backend, fun k => ?_⟩
    rw [handle_abandon]
    exact forall_updateHandle hall Handle.inOrder_invalidated k
  | draw => exact ⟨hs.backend.allocate.1, hall⟩
  | @insert hmay k row b htag hstores =>
    refine ⟨?_, forall_withFresh hall (fun _ => Handle.inOrder_invalidated) row b⟩
    rw [backend_withFresh]
    exact hstores.puts.sound
  | @create hmay k row b s htag hstores hparent hnew =>
    have hfresh := forall_withFresh hall (fun _ => Handle.inOrder_invalidated) row b
    refine ⟨?_, forall_adopt hfresh _ (Handle.inOrder_ofRow hnew)⟩
    show (t.withFresh row b).store.backend.Sound
    rw [backend_withFresh]
    exact hstores.puts.sound
  | promote hmay h hlive hnone htag haddress hstores =>
    refine ⟨hstores.puts.sound, fun k => ?_⟩
    rw [handle_embody, handle_updateHandle_withBackend]
    exact forall_updateHandle hall (.promoted hlive htag _) k
  | edit h hrow hedits hputs =>
    refine ⟨hputs.sound, fun k => ?_⟩
    rw [handle_updateHandle_withBackend]
    exact forall_updateHandle hall ((hall h).refreshed hrow hedits.id_eq hedits.tag_eq _) k
  | mark hmay h deleting => exact ⟨hs.backend, forall_updateHandle hall ((hall h).marked deleting)⟩
  | takeOut hmay h hkey hremoves =>
    refine ⟨hremoves.sound, fun k => ?_⟩
    rw [handle_release, handle_updateHandle_withBackend]
    exact forall_updateHandle hall Handle.inOrder_invalidated k
  | relocate hmay h a hlive hrow =>
    refine ⟨hs.backend, fun k => ?_⟩
    rw [handle_withPool]
    exact forall_updateHandle hall ((hall h).relocated hlive hrow a) k
  | intrudePut hmay hputs => exact ⟨hputs.sound, hall⟩
  | intrudeTake hmay hremoves => exact ⟨hremoves.sound, hall⟩

/-- Steps one after the other make no sound table unsound. -/
theorem Path.sound (h : Path may t t') (hs : t.Sound) : t'.Sound := by
  induction h with
  | refl => exact hs
  | tail _ hstep ih => exact hstep.sound ih

/-- No step takes ids back. Ids are drawn where a row is stored, or for nothing, and never given
back. -/
theorem Step.drawn_le (h : Step may t t') (hs : t.Sound) : t.drawn ≤ t'.drawn := by
  cases h with
  | aside h => exact Nat.le_of_eq h.drawn_eq.symm
  | plan | adopt | refresh | vanish | mark | relocate => exact Nat.le_refl _
  | draw => exact hs.drawn_draw
  | @insert _ k row b htag hstores | @create _ k row b s htag hstores =>
    exact Nat.le_trans (hstores.drawn_le hs) (Nat.le_of_eq (drawn_withFresh t row b).symm)
  | promote _ h _ _ _ _ hstores => exact hstores.drawn_le hs
  | edit h hrow hedits hputs => exact Nat.le_of_eq hputs.drawn.symm
  | takeOut _ h hkey hremoves => exact Nat.le_of_eq hremoves.drawn.symm
  | intrudePut _ hputs => exact Nat.le_of_eq hputs.drawn.symm
  | intrudeTake _ hremoves => exact Nat.le_of_eq hremoves.drawn.symm

/-- Steps one after the other take no id back. -/
theorem Path.drawn_le (h : Path may t t') (hs : t.Sound) : t.drawn ≤ t'.drawn := by
  induction h with
  | refl => exact Nat.le_refl _
  | tail hpath hstep ih => exact Nat.le_trans ih (hstep.drawn_le (Path.sound hpath hs))

/-! ## Rows that stand for kinds -/

/-- Unless rows are changed behind the table's back, they go on to stand for kinds. A row that is
stored is checked to be of a kind, and one that is edited keeps its own. -/
theorem Step.kinds (hstep : Step may t t') (hintrude : ¬ may .intrude) (hs : t.Sound)
    (hkinds : ∀ r ∈ t.rows, ∃ k, r.kind? = some k) : ∀ r ∈ t'.rows, ∃ k, r.kind? = some k := by
  have hstored {row : Row} {b : Store.Backend} (hstores : t.Stores row b) (k : Kind) (htag : row.tag = k.tag) :
      ∀ r ∈ b.rows, ∃ k, r.kind? = some k := by
    intro r hr
    rcases (hstores.mem_rows hs r).1 hr with rfl | ⟨hr, -⟩
    · exact ⟨k, Kind.ofTag?_eq_some_iff.2 htag⟩
    · exact hkinds r hr
  cases hstep with
  | aside h => rwa [h.rows_eq]
  | plan | adopt | refresh | vanish | mark | relocate => exact hkinds
  | draw => rwa [hs.rows_draw]
  | insert _ k htag hstores =>
    rw [rows_withFresh]
    exact hstored hstores k htag
  | @create _ k row b s htag hstores =>
    show ∀ r ∈ (t.withFresh row b).rows, _
    rw [rows_withFresh]
    exact hstored hstores k htag
  | promote _ h _ _ htag _ hstores => exact hstored hstores _ htag
  | edit h hrow hedits hputs =>
    intro r hr
    rcases (hputs.mem_rows r).1 hr with rfl | ⟨hr, -⟩
    · exact ⟨_, Kind.ofTag?_eq_some_iff.2 (hedits.tag_eq.trans ((hs.inOrder h).tag _ hrow))⟩
    · exact hkinds r hr
  | takeOut _ h hkey hremoves => exact fun r hr => hkinds r ((hremoves.mem_rows r).1 hr).1
  | intrudePut hmay | intrudeTake hmay => exact absurd hmay hintrude

/-- Unless rows are changed behind the table's back, all of them stand for kinds after any number of
steps if they did before. -/
theorem Path.kinds (hpath : Path may t t') (hintrude : ¬ may .intrude) (hs : t.Sound)
    (hkinds : ∀ r ∈ t.rows, ∃ k, r.kind? = some k) : ∀ r ∈ t'.rows, ∃ k, r.kind? = some k := by
  induction hpath with
  | refl => exact hkinds
  | tail hpath hstep ih => exact hstep.kinds hintrude (Path.sound hpath hs) ih

/-! ## Stored symbols -/

/-- A handle that loses its symbol to a fresh row keeps its key. It is marked deleted, which is all
that tells. -/
theorem key_withFresh (t : Table) (row : Row) (b : Store.Backend) (k : HandleId) :
    ((t.withFresh row b).handle k).key = (t.handle k).key := by
  rw [withFresh, handle_dropDerived]
  split <;> rfl

/-- A handle of a stored symbol is one forever. Its key would change only if it became derived or
were moved as a derived one, and it is neither. -/
theorem Step.key_stored (h : Step may t t') (hs : t.Sound) {k : HandleId} {id : SymbolId}
    (hkey : (t.handle k).key = .stored id) : (t'.handle k).key = .stored id := by
  have hlt := lt_of_key hkey
  -- a derived symbol has another key, so it is not the handle `k` that gets a new one
  have hne : ∀ {h : HandleId}, (t.handle h).deleted = false → (t.handle h).row = none → k ≠ h := by
    rintro h hlive hnone rfl
    rw [((hs.inOrder _).derived hlive hnone).1] at hkey
    cases hkey
  cases h with
  | aside h => rw [h.handle, hkey]
  | plan => exact hkey
  | adopt s =>
    rw [handle_adopt, if_neg (Nat.ne_of_lt hlt), hkey]
  | refresh | mark => rw [map_updateHandle Handle.key rfl, hkey]
  | vanish => rw [handle_abandon, map_updateHandle Handle.key rfl, hkey]
  | draw | intrudePut | intrudeTake => exact hkey
  | insert => rw [key_withFresh, hkey]
  | create =>
    rw [handle_adopt, length_withFresh, if_neg (Nat.ne_of_lt hlt), key_withFresh, hkey]
  | promote hmay h hlive hnone =>
    rw [handle_embody, handle_updateHandle_withBackend, handle_updateHandle_ne t (hne hlive hnone), hkey]
  | edit => rw [handle_updateHandle_withBackend, map_updateHandle Handle.key rfl, hkey]
  | takeOut =>
    rw [handle_release, handle_updateHandle_withBackend, map_updateHandle Handle.key rfl, hkey]
  | relocate hmay h a hlive hnone =>
    rw [handle_withPool, handle_updateHandle_ne t (hne hlive hnone), hkey]

/-- A handle of a stored symbol is one forever, after any number of steps. It may come to be marked
deleted and still has its key. The induction is on the steps. -/
theorem Path.key_stored (h : Path may t t') (hs : t.Sound) {k : HandleId} {id : SymbolId}
    (hkey : (t.handle k).key = .stored id) : (t'.handle k).key = .stored id := by
  induction h with
  | refl => exact hkey
  | tail hpath hstep ih => exact hstep.key_stored (Path.sound hpath hs) ih

/-! ## Deletions -/

/-- A new handle is not marked, so it makes no difference to which symbols are being deleted. The
handle is adopted at the end of the list, where there was none before. -/
theorem deleting_adopt (t : Table) {s : Handle} (hs : s.deleting = false) (key : Key) (k : HandleId) :
    ((t.adopt key s).handle k).deleting = (t.handle k).deleting := by
  rw [handle_adopt]
  split
  · rename_i hk
    rw [hs, hk, handle_of_le (Nat.le_refl _)]
    rfl
  · rfl

/-- A fresh row makes no difference to which symbols are being deleted. -/
theorem deleting_withFresh (t : Table) (row : Row) (b : Store.Backend) (k : HandleId) :
    ((t.withFresh row b).handle k).deleting = (t.handle k).deleting := by
  rw [withFresh, handle_dropDerived]
  split <;> rfl

/-- No other step begins or ends a deletion. So the marks tell which deletions are going on, except
for those steps that may mark. These are allowed with the deed `remove`. -/
theorem Step.deleting_eq (h : Step may t t') (hremove : ¬ may .remove) (k : HandleId) :
    (t'.handle k).deleting = (t.handle k).deleting := by
  cases h with
  | aside h => rw [h.handle]
  | plan | draw | intrudePut | intrudeTake => rfl
  | adopt s hpool hnew =>
    refine deleting_adopt t ?_ _ k
    rcases hnew with ⟨id, r, -, hofRow⟩ | ⟨a, rfl⟩
    · obtain ⟨_, -, rfl⟩ := Handle.eq_of_ofRow hofRow
      rfl
    · rfl
  | refresh => rw [map_updateHandle Handle.deleting rfl]
  | edit => rw [handle_updateHandle_withBackend, map_updateHandle Handle.deleting rfl]
  | vanish => rw [handle_abandon, map_updateHandle Handle.deleting rfl]
  | insert => exact deleting_withFresh ..
  | create _ _ _ _ _ hnew =>
    obtain ⟨_, -, rfl⟩ := Handle.eq_of_ofRow hnew
    exact (deleting_adopt _ rfl _ k).trans (deleting_withFresh ..)
  | promote => rw [handle_embody, handle_updateHandle_withBackend, map_updateHandle Handle.deleting rfl]
  | relocate => rw [handle_withPool, map_updateHandle Handle.deleting rfl]
  | mark hmay | takeOut hmay => exact absurd hmay hremove

/-- Unless symbols are deleted, no number of steps begins or ends a deletion. The induction is on
the steps. -/
theorem Path.deleting_eq (h : Path may t t') (hremove : ¬ may .remove) (k : HandleId) :
    (t'.handle k).deleting = (t.handle k).deleting := by
  induction h with
  | refl => rfl
  | tail _ hstep ih => exact (hstep.deleting_eq hremove k).trans ih

/-! ## Upkeep

Steps of no deed at all keep up the handles: they leave the store alone, and every handle whose copy
is current. -/

/-- The handle would not be touched if it were made current. -/
def IsCurrent (t : Table) (h : HandleId) : Prop :=
  (t.handle h).deleted = true ∨ (t.handle h).row = none ∨
    (t.handle h).seenAt = t.store.modificationCount

/-- No deed at all. -/
def upkeep (_ : Deed) : Prop :=
  False

/-- A step that keeps up the handles leaves the store alone, and every handle that is current: it
would not be touched if it were made current once more. -/
theorem Step.upkeep (h : Step upkeep t t') : t'.store = t.store ∧
    ∀ k < t.handles.length, t.IsCurrent k → t'.handle k = t.handle k := by
  have hne : ∀ {h k : HandleId} {r : Row}, (t.handle h).deleted = false →
      (t.handle h).row = some r → (t.handle h).seenAt ≠ t.store.modificationCount →
      t.IsCurrent k → k ≠ h := by
    rintro h k r hlive hrow hstale (hk | hk | hk) rfl
    · rw [hlive] at hk
      cases hk
    · rw [hrow] at hk
      cases hk
    · exact hstale hk
  cases h with
  | aside h => exact ⟨h.store, fun k _ _ => h.handle k⟩
  | adopt s =>
    refine ⟨rfl, fun k hlt _ => ?_⟩
    rw [handle_adopt, if_neg (Nat.ne_of_lt hlt)]
  | refresh h hlive hrow hstale =>
    refine ⟨rfl, fun k _ hk => ?_⟩
    rw [handle_updateHandle_ne t (hne hlive hrow hstale hk)]
  | vanish h hlive hrow hstale =>
    refine ⟨rfl, fun k _ hk => ?_⟩
    rw [handle_abandon, handle_updateHandle_ne t (hne hlive hrow hstale hk)]
  | edit h hrow hedits =>
    cases hedits with
    | mark hmay | rename hmay | readdress hmay => exact hmay.elim
  | plan hmay | draw hmay | insert hmay | create hmay | promote hmay | mark hmay | takeOut hmay
  | relocate hmay | intrudePut hmay | intrudeTake hmay => exact hmay.elim

/-- No step takes a handle away. So a handle that was given out means something at every later
moment. -/
theorem Step.length_le (h : Step may t t') : t.handles.length ≤ t'.handles.length := by
  cases h with
  | aside h => simp [h.handles]
  | adopt | insert | create => simp
  | plan | draw | intrudePut | intrudeTake => exact Nat.le_refl _
  | refresh | edit | mark | vanish | promote | takeOut | relocate =>
    exact Nat.le_of_eq List.length_set.symm

/-- Keeping up the handles leaves the store alone, and every handle whose copy is current. A handle
whose copy is current is not refreshed, marked or given another key by upkeep. The induction is on
the steps. -/
theorem Path.upkeep (h : Path upkeep t t') : t'.store = t.store ∧
    t.handles.length ≤ t'.handles.length ∧
    ∀ k < t.handles.length, t.IsCurrent k → t'.handle k = t.handle k := by
  induction h with
  | refl => exact ⟨rfl, Nat.le_refl _, fun _ _ _ => rfl⟩
  | tail _ hstep ih =>
    obtain ⟨hstore, hlen, hsame⟩ := ih
    obtain ⟨hstore', hsame'⟩ := hstep.upkeep
    refine ⟨hstore'.trans hstore, Nat.le_trans hlen hstep.length_le, fun k hlt hk => ?_⟩
    have heq := hsame k hlt hk
    rw [hsame' k (Nat.lt_of_lt_of_le hlt hlen), heq]
    rw [IsCurrent, heq, hstore]
    exact hk

/-- Keeping up the handles changes no row. This is what makes it invisible to everything that is
said of rows. -/
theorem Path.rows_eq_of_upkeep (h : Path Table.upkeep t t') : t'.rows = t.rows :=
  congrArg (·.backend.rows) h.upkeep.1

/-! ## Allowing more -/

variable {may' : Deed → Prop}

/-- The more deeds are allowed, the more can become of a row. It is the deed of each edit that has
to be allowed. -/
theorem Edits.mono {s : Handle} {r r' : Row} (h : t.Edits may s r r') (hmay : ∀ d, may d → may' d) :
    t.Edits may' s r r' := by
  cases h with
  | mark h hid htag haddress hparent hname hprovenance =>
    exact .mark (hmay _ h) hid htag haddress hparent hname hprovenance
  | rename h plan hfree hparent houtside => exact .rename (hmay _ h) plan hfree hparent houtside
  | readdress h a => exact .readdress (hmay _ h) a

/-- A step of the deeds that are allowed is one of more deeds. Whether a step is one of some deeds
is a matter of the one deed that it is. -/
theorem Step.mono (h : Step may t t') (hmay : ∀ d, may d → may' d) : Step may' t t' := by
  cases h with
  | aside h => exact .aside h
  | plan h outages => exact .plan (hmay _ h) outages
  | adopt s hpool hs => exact .adopt s hpool hs
  | refresh h hlive hrow hstale hget htag => exact .refresh h hlive hrow hstale hget htag
  | vanish h hlive hrow hstale hgone => exact .vanish h hlive hrow hstale hgone
  | draw h => exact .draw (hmay _ h)
  | insert h k htag hstores hparent => exact .insert (hmay _ h) k htag hstores hparent
  | create h k htag hstores hparent hs => exact .create (hmay _ h) k htag hstores hparent hs
  | promote hw h hlive hrow htag haddress hstores hparent =>
    exact .promote (hmay _ hw) h hlive hrow htag haddress hstores hparent
  | edit h hrow hedits hputs => exact .edit h hrow (hedits.mono hmay) hputs
  | mark hr h deleting => exact .mark (hmay _ hr) h deleting
  | takeOut hr h hkey hremoves => exact .takeOut (hmay _ hr) h hkey hremoves
  | relocate hr h a hlive hrow => exact .relocate (hmay _ hr) h a hlive hrow
  | intrudePut h hputs => exact .intrudePut (hmay _ h) hputs
  | intrudeTake h hremoves => exact .intrudeTake (hmay _ h) hremoves

/-- Steps of the deeds that are allowed are steps of more deeds. What few deeds may do is so known
of where many may. -/
theorem Path.mono (h : Path may t t') (hmay : ∀ d, may d → may' d) : Path may' t t' :=
  Relation.ReflTransGen.mono (fun _ _ hstep => Step.mono hstep hmay) _ _ h

end Table

end SymbolTable
