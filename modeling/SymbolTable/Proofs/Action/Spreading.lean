import SymbolTable.Proofs.Action.Upkeep

/-!
# What is asked of symbols

What is asked of a symbol looks at the table, asks the store, and at most refreshes handles or makes
new ones. A property of actions that holds of these parts and spreads to what is put together from
them (`Action.Spreads`) holds of names, paths, refreshes and lookups. There are two such properties:
that an action leaves everything but handles as it was, whichever way it ends (`Action.Spares`), and
that, where the store works, how it ends does not depend on the moment or on what is around the
table (`Action.Determined`).
-/

namespace SymbolTable

open Table (Path)

variable {σ α β : Type} {t t₁ t₂ t' : Table} {h : HandleId}

namespace Table

/-- Nothing was designated, noted or told, and the references are the same. -/
structure Unnoted (t t' : Table) : Prop where
  facts : t'.facts = t.facts
  references : t'.references = t.references
  journal : t'.journal = t.journal
  log : t'.log = t.log

/-- The store is the same, too: at most, handles were kept up. -/
structure Untouched (t t' : Table) : Prop extends t.Unnoted t' where
  store : t'.store = t.store

/-- If nothing is noted in either of two stretches, nothing is noted over both. -/
theorem Unnoted.trans (h : t.Unnoted t₁) (h' : t₁.Unnoted t₂) : t.Unnoted t₂ where
  facts := h'.facts.trans h.facts
  references := h'.references.trans h.references
  journal := h'.journal.trans h.journal
  log := h'.log.trans h.log

namespace Untouched

/-- A table is untouched if nothing happens to it. -/
theorem refl (t : Table) : t.Untouched t :=
  ⟨⟨rfl, rfl, rfl, rfl⟩, rfl⟩

/-- If nothing is touched in either of two stretches, nothing is touched over both. -/
theorem trans (h : t.Untouched t₁) (h' : t₁.Untouched t₂) : t.Untouched t₂ :=
  ⟨h.toUnnoted.trans h'.toUnnoted, h'.store.trans h.store⟩

/-- A table that is untouched has the same rows. -/
theorem rows_eq (h : t.Untouched t') : t'.rows = t.rows :=
  congrArg (·.backend.rows) h.store

/-- A table that is untouched has had no further writes, which the store counts. -/
theorem writes_eq (h : t.Untouched t') : t'.writes = t.writes :=
  congrArg Store.writes h.store

end Untouched

/-- A refresh touches nothing but the handle, whatever becomes of it. -/
theorem Refreshed.untouched {answer : Except Fault Unit} (hr : t.Refreshed h answer t') :
    t.Untouched t' := by
  cases hr with
  | ready | reloaded | vanished | deleted | failed => exact ⟨⟨rfl, rfl, rfl, rfl⟩, rfl⟩

/-- The table with a store whose calls fail as said. -/
def withOutages (t : Table) (outages : Store.Outages) : Table :=
  { t with store := { t.store with outages := outages } }

/-- Another plan of outages is a step that goes on outside, like the intrusions: it changes no row
and no handle. -/
theorem drifts_withOutages (t : Table) (outages : Store.Outages) : t.Drifts (t.withOutages outages) :=
  ⟨rfl, rfl, rfl, rfl, rfl, rfl⟩

/-- The table with a store that works again. -/
def restored (t : Table) : Table :=
  t.withOutages .never

/-- A store that is restored works: none of its calls is planned to fail. -/
theorem works_restored (t : Table) : t.restored.store.Works :=
  fun _ _ _ => rfl

/-- Soundness says nothing about outages, so the table with a restored store is as sound as
before. -/
theorem Sound.restored (ht : t.Sound) : t.restored.Sound :=
  ⟨ht.backend, ht.inOrder⟩

end Table

/-- Calls of the store fail as said. -/
def Situated.withOutages (s : Situated σ) (outages : Store.Outages) : Situated σ :=
  { s with table := s.table.withOutages outages }

/-- The store works again. -/
def Situated.restored (s : Situated σ) : Situated σ :=
  s.withOutages .never

namespace Action

/-! ## Properties that spread -/

/-- The property holds of actions that look, ask or change handles, and of what is put together from
actions of which it holds. -/
structure Spreads (P : ∀ α : Type, Action σ α → Prop) : Prop where
  pure {α : Type} (x : α) : P α (pure x)
  fail {α : Type} (fault : Fault) : P α (fail fault)
  look {α : Type} (q : Table → α) : P α (look q)
  ask {α : Type} (q : Table → Except Fault α) : P α (ask q)
  getRow (id : SymbolId) : P _ (getRow id)
  rowsAt (a : Address) : P _ (rowsAt a)
  allRows : P _ allRows
  change {f : Table → Table} : (∀ t : Table, t.Untouched (f t)) → P Unit (change f)
  bind {α β : Type} {a : Action σ α} {f : α → Action σ β} : P α a → (∀ x, P β (f x)) → P β (a >>= f)
  attempt {α : Type} {a : Action σ α} : P α a → P _ (attempt a)

namespace Spreads

variable {P : ∀ α : Type, Action σ α → Prop} (hP : Spreads P)

include hP

/-- To end with an answer or a fault that is settled already has a property that spreads, since it
is one or the other of the two that do nothing. -/
theorem conclude (answer : Except Fault α) : P α (conclude answer) := by
  cases answer with
  | ok x => exact hP.pure x
  | error fault => exact hP.fail fault

/-- A property that spreads goes through a change of the answer. -/
theorem map {a : Action σ α} {f : α → β} (ha : P α a) : P β (f <$> a) := by
  rw [map_eq_pure_bind]
  exact hP.bind ha fun x => hP.pure (f x)

/-- A property that spreads goes through a list of answers, by induction on the list. -/
theorem mapM {f : α → Action σ β} (hf : ∀ x, P β (f x)) (xs : List α) : P _ (xs.mapM f) := by
  induction xs with
  | nil => exact hP.pure []
  | cons x xs ih =>
    rw [List.mapM_cons]
    exact hP.bind (hf x) fun y => hP.bind ih fun ys => hP.pure (y :: ys)

/-! ### Names and scopes -/

/-- A property that spreads holds of the name that a row shows, by induction on the depth that is
left. It looks at the rules and asks for the row of the lender, and these are two of the parts of
which such a property holds. -/
theorem shownName (depth : Nat) (visited : List SymbolId) (r : Row) :
    P _ (shownName depth visited r) := by
  induction depth generalizing visited r with
  | zero => exact hP.look _
  | succ depth ih =>
    unfold Action.shownName
    split
    · exact hP.pure _
    · refine hP.bind (hP.look _) fun lender? => ?_
      split
      · exact hP.look _
      · split
        · exact hP.look _
        · refine hP.bind (hP.getRow _) fun row? => ?_
          split
          · exact hP.look _
          · exact ih _ _

/-- A property that spreads holds of the name that is displayed. -/
theorem displayName (r : Row) : P _ (displayName r) :=
  hP.bind (hP.look _) fun _ => hP.shownName _ _ _

/-- A property that spreads holds of the name of a symbol. Whether it is stored or derived matters
only to what is read. -/
theorem nameOf (h : HandleId) : P _ (nameOf h) := by
  refine hP.bind (hP.look _) fun s => ?_
  split
  · exact hP.displayName _
  · exact hP.look _

/-- A property that spreads holds of a walk up the parents, by induction on the depth that is left.
It asks for the row of each parent, and refuses where it was before. -/
theorem climb (start : Scope) (depth : Nat) (visited : List SymbolId) (scope : Scope) :
    P _ (climb start depth visited scope) := by
  induction depth generalizing visited scope with
  | zero =>
    cases scope with
    | global => exact hP.pure _
    | of id => exact hP.fail _
  | succ depth ih =>
    cases scope with
    | global => exact hP.pure _
    | of id =>
      unfold Action.climb
      split
      · exact hP.fail _
      · refine hP.bind (hP.getRow _) fun row? => ?_
        split
        · exact hP.pure _
        · exact hP.bind (ih _ _) fun _ => hP.pure _

/-- A property that spreads holds of the list of the scopes around a scope. -/
theorem ancestors (scope : Scope) : P _ (ancestors scope) :=
  hP.bind (hP.look _) fun _ => hP.climb _ _ _ _

/-- A property that spreads holds of a path, which is a list of names of scopes and then the name of
the symbol itself. -/
theorem pathOf (h : HandleId) : P _ (pathOf h) :=
  hP.bind (hP.look _) fun _ =>
    hP.bind (hP.bind (hP.ancestors _) fun _ => hP.mapM hP.displayName _) fun _ =>
      hP.bind (hP.nameOf h) fun _ => hP.pure _

/-- A property that spreads holds of the question whether a scope lies in a symbol. It is a walk of
which the refusal is taken for an answer. -/
theorem encloses (h : HandleId) (scope : Scope) : P _ (encloses h scope) := by
  refine hP.bind (hP.look _) fun id? => ?_
  split
  · exact hP.pure _
  · refine hP.bind (hP.attempt (hP.ancestors _)) fun answer => ?_
    split
    · exact hP.pure _
    · exact hP.pure _
    · exact hP.fail _

/-! ### Handles -/

/-- A property that spreads holds of a refresh. That a refresh may mark its handle is covered by
`Spreads`, which allows changes of handles. -/
theorem refresh (h : HandleId) : P _ (refresh h) := by
  refine hP.bind (hP.look _) fun s => hP.bind (hP.look _) fun now => ?_
  have hvanish : P _ (vanish h s.key) :=
    hP.bind (hP.change fun _ => ⟨⟨rfl, rfl, rfl, rfl⟩, rfl⟩) fun _ => hP.fail _
  split
  · exact hP.fail _
  · split
    · exact hP.pure _
    · split
      · exact hP.pure _
      · refine hP.bind (hP.getRow _) fun row? => ?_
        split
        · split
          · exact hP.change fun _ => ⟨⟨rfl, rfl, rfl, rfl⟩, rfl⟩
          · exact hvanish
        · exact hvanish

/-- A property that spreads goes from an action to what it does once the handle is current. -/
theorem current {a : Action σ α} (h : HandleId) (ha : P α a) : P α (current h a) :=
  hP.bind (hP.ask _) fun _ => hP.bind (hP.refresh h) fun _ => ha

/-- A property that spreads holds of the name of a symbol that is current. -/
theorem currentName (h : HandleId) : P _ (currentName h) :=
  hP.current h (hP.nameOf h)

/-- A property that spreads holds of finding the handle of an id, or of making it. To add a handle
is one of the changes that `Spreads` allows. -/
theorem pooled_handleOfRow (id : SymbolId) : P _ (pooled (.stored id) (handleOfRow id)) := by
  have hmake : P _ (handleOfRow id) := by
    refine hP.bind (hP.look _) fun now => hP.bind (hP.getRow id) fun row? => ?_
    split
    · exact hP.pure _
    · exact hP.map (hP.conclude _)
  refine hP.bind (hP.look _) fun h? => ?_
  split
  · exact hP.pure _
  · refine hP.bind hmake fun s? => ?_
    split
    · exact hP.pure _
    · exact hP.bind (hP.look _) fun _ =>
        hP.bind (hP.change fun _ => ⟨⟨rfl, rfl, rfl, rfl⟩, rfl⟩) fun _ => hP.pure _

/-- A property that spreads holds of looking up an id. It refreshes the handle that it finds, and
makes a new one if this turns out to be gone. -/
theorem lookup (id : SymbolId) : P _ (lookup id) := by
  refine hP.bind (hP.look _) fun h? => ?_
  split
  · exact hP.pooled_handleOfRow id
  · refine hP.bind (hP.attempt (hP.refresh _)) fun answer => ?_
    split
    · exact hP.pure _
    · exact hP.pooled_handleOfRow id
    · exact hP.fail _

/-- A property that spreads holds of looking up one id after the other. -/
theorem lookupEach (ids : List SymbolId) : P _ (lookupEach ids) :=
  hP.bind (hP.mapM hP.lookup ids) fun _ => hP.pure _

/-- A property that spreads holds of the list of those that borrow a name from a symbol, which is
gathered before the name is changed. -/
theorem borrowers (h : HandleId) : P _ (borrowers h) := by
  refine hP.bind (hP.look _) fun s => ?_
  split
  · exact hP.pure _
  · split
    · exact hP.pure _
    · exact hP.bind hP.allRows fun _ => hP.bind (hP.look _) fun _ => hP.lookupEach _

/-- A property that spreads holds of counting the references that a symbol owns. -/
theorem countOwned (h : HandleId) (limit : Option Nat) : P _ (countOwned h limit) :=
  hP.bind (hP.look _) fun _ => hP.bind (hP.bind (hP.rowsAt _) fun _ => hP.pure _) fun _ =>
    hP.bind (hP.look _) fun _ => hP.bind (hP.look _) fun _ => hP.pure _

end Spreads

/-! ## Leaving everything but handles as it was -/

/-- Whichever way it ends, the action touches nothing but handles. -/
def Spares (a : Action σ α) : Prop :=
  ∀ t, Ends t a fun _ t' => t.Untouched t'

/-- What only reads spares the table. It is the most common reason for which a part of an action
spares the table. -/
theorem Spares.of_reads {a : Action σ α} (h : Reads a) : Spares a := by
  intro t
  refine (h t).imp ?_
  rintro _ _ rfl
  exact .refl _

/-- That the table is spared spreads. So the lemmas of `Spreads` say of every question above that it
touches nothing but handles. -/
theorem spreads_spares : Spreads fun α (a : Action σ α) => Spares a where
  pure x := .of_reads (.pure x)
  fail fault := .of_reads (.fail fault)
  look q := .of_reads (.look q)
  ask q := .of_reads (.ask q)
  getRow _ := .of_reads (.askStore _)
  rowsAt _ := .of_reads (.askStore _)
  allRows := .of_reads (.askStore _)
  change hf t := .change (hf t)
  bind ha hf t := .bind (ha t) (fun x t' h => (hf x t').imp fun _ _ h' => h.trans h') fun _ _ h => h
  attempt ha t := .attempt (ha t)

/-! ## Depending on the table alone -/

/-- Where the store works, the answer and the table at the end depend on the table alone. The store
still works then. -/
def Determined (a : Action σ α) : Prop :=
  ∀ t : Table, t.store.Works →
    ∃ answer t', t'.store.Works ∧ Ends t a fun answer' t'' => answer' = answer ∧ t'' = t'

namespace Determined

/-- Determined actions one after the other are determined: the answer and the table after the first
are, and those are what the second starts from. -/
theorem bind {a : Action σ α} {f : α → Action σ β} (ha : Determined a) (hf : ∀ x, Determined (f x)) :
    Determined (a >>= f) := by
  intro t hworks
  obtain ⟨answer, t₁, hworks₁, hends⟩ := ha t hworks
  cases answer with
  | ok x =>
    obtain ⟨answer, t₂, hworks₂, hends₂⟩ := hf x t₁ hworks₁
    refine ⟨answer, t₂, hworks₂, .bind hends ?_ ?_⟩
    · rintro _ _ ⟨⟨⟩, rfl⟩
      exact hends₂
    · rintro _ _ ⟨hanswer, -⟩
      cases hanswer
  | error fault =>
    refine ⟨.error fault, t₁, hworks₁, .bind hends ?_ ?_⟩
    · rintro _ _ ⟨hanswer, -⟩
      cases hanswer
    · rintro _ _ ⟨⟨⟩, rfl⟩
      exact ⟨rfl, rfl⟩

/-- To go on in spite of a fault is determined if the action is, faults included. The fault becomes
an answer, and it is the same one in all surroundings. -/
theorem attempt {a : Action σ α} (ha : Determined a) : Determined (attempt a) := by
  intro t hworks
  obtain ⟨answer, t', hworks', hends⟩ := ha t hworks
  refine ⟨.ok answer, t', hworks', .attempt (hends.imp ?_)⟩
  rintro _ _ ⟨rfl, rfl⟩
  exact ⟨rfl, rfl⟩

/-- A question to a store that works is answered by what keeps the rows. -/
theorem askStore {call : Store.Call} {id? : Option SymbolId} (ask : Store.Backend → Except StoreFault α) :
    Determined (askStore fun s now => s.reach now call id? >>= fun _ => ask s.backend : Action σ α) := by
  intro t hworks
  refine ⟨(ask t.store.backend).mapError .store, t, hworks, .askStore fun now => ?_⟩
  have hreach : t.store.reach now call id? = .ok () := by
    rw [Store.reach, hworks]
  rw [hreach]
  exact ⟨rfl, rfl⟩

/-- At whatever moment and in whatever surroundings a determined action is run at a table whose
store works, it gives the same answer. -/
theorem answer_eq {a : Action σ α} (ha : Determined a) {s s' : Situated σ} (htable : s'.table = s.table)
    (hworks : s.table.store.Works) : (a.run s').1 = (a.run s).1 := by
  obtain ⟨answer, t', -, hends⟩ := ha s.table hworks
  rw [(hends s rfl).1, (hends s' htable).1]

end Determined

/-- To be determined spreads. So what the questions above answer depends on the table alone where
the store works. For each part it is shown that the answer is the same in all surroundings. A
question to the store is answered from its rows, as none of its calls fails. -/
theorem spreads_determined : Spreads fun α (a : Action σ α) => Determined a where
  pure x t hworks := ⟨.ok x, t, hworks, .pure ⟨rfl, rfl⟩⟩
  fail fault t hworks := ⟨.error fault, t, hworks, .fail ⟨rfl, rfl⟩⟩
  look q t hworks := ⟨.ok (q t), t, hworks, .look ⟨rfl, rfl⟩⟩
  ask q t hworks := ⟨q t, t, hworks, .ask ⟨rfl, rfl⟩⟩
  getRow id := .askStore (·.get id)
  rowsAt a := .askStore (·.rowsAt a)
  allRows := .askStore (·.scan)
  change {f} hf t hworks := ⟨.ok (), f t, (hf t).store ▸ hworks, .change ⟨rfl, rfl⟩⟩
  bind := .bind
  attempt := .attempt

end Action

end SymbolTable
