import SymbolTable.Proofs.Action.Deletion
import SymbolTable.Proofs.Action.Refusal

/-!
# Refused operations

An operation that is refused for another reason than a failure of the store leaves no trace.
Creating and renaming check everything before they write (`Table.Rejected`). To delete a symbol is
refused by the store alone in a table that is open and whose rows stand for kinds
(`Action.sturdy_delete`). The other edits of a symbol write once, as the last thing that can be
refused, so whatever they are refused for, at most it was found out whether the symbol is there
(`Table.Kept`). What the symbol tells is the same then, once the store answers
(`Table.Kept.answer_eq`).
-/

namespace SymbolTable

open SymbolTable.Action
open Table (Path Step pruning)

variable {σ α β : Type} {t t₁ t' : Table} {notify : Listener σ} {h : HandleId}

/-! ## Edits that write once -/

namespace Table

/-- At most, it was found out whether the symbol of a handle is there. -/
def Kept (t : Table) (h : HandleId) (t' : Table) : Prop :=
  t' = t ∨ ∃ answer, t.Refreshed h answer t'

/-- To find out whether a symbol is there touches nothing but its handle. -/
theorem Kept.untouched (hk : t.Kept h t') : t.Untouched t' := by
  rcases hk with rfl | ⟨_, hr⟩
  · exact .refl _
  · exact hr.untouched

/-- To find out whether a symbol is there keeps a table sound. -/
theorem Kept.sound (hk : t.Kept h t') (ht : t.Sound) : t'.Sound := by
  rcases hk with rfl | ⟨_, hr⟩
  · exact ht
  · exact hr.path.sound ht

/-- The handle still has the same key, and is taken for a derived one if and only if it was. So the
next question about the symbol is asked of the same row, or of the same address. -/
theorem Kept.handle_eq (hk : t.Kept h t') :
    (t'.handle h).key = (t.handle h).key ∧ (t'.handle h).isDerived = (t.handle h).isDerived := by
  rcases hk with rfl | ⟨_, hr⟩
  · exact ⟨rfl, rfl⟩
  · cases hr with
    | ready | deleted | failed => exact ⟨rfl, rfl⟩
    | reloaded hlive hrow =>
      rw [handle_updateHandle_self t (lt_of_live hlive)]
      exact ⟨rfl, by simp [Handle.isDerived, Handle.refreshed, hrow]⟩
    | vanished hlive hrow =>
      rw [handle_abandon, handle_updateHandle_self t (lt_of_live hlive)]
      exact ⟨rfl, by simp [Handle.isDerived, Handle.invalidated, hrow]⟩

end Table

/-- An edit that neither names nor deletes. -/
def Edit.IsPlain : Edit → Prop
  | .rename .. | .setName .. | .setScope _ | .delete => False
  | _ => True

namespace Action

/-- Refused, the action has left the table as it was. -/
def Refrains (t : Table) (a : Action σ α) : Prop :=
  Ends t a fun answer t' => ∀ fault, answer = .error fault → t' = t

namespace Refrains

/-- What only reads refrains, whether it is refused or not. -/
theorem of_reads {a : Action σ α} (h : Reads a) : Refrains t a :=
  (h t).imp fun _ _ heq _ _ => heq

/-- What only reads may stand before an action that refrains. Most checks of the code are of this
form. -/
theorem bind_of_reads {a : Action σ α} {f : α → Action σ β} (ha : Reads a) (hf : ∀ x, Refrains t (f x)) :
    Refrains t (a >>= f) :=
  ha.ends_bind hf fun _ _ _ => rfl

/-- What is looked up in the table is known there, so what follows need only refrain for what is
found. -/
theorem look_bind {q : Table → β} {f : β → Action σ α} (h : Refrains t (f (q t))) :
    Refrains t (look q >>= f) :=
  Ends.look_bind h

/-- Nothing is refused once the row is written. So if it is refused, it is the write that was, and
nothing has changed. -/
theorem write_bind (ht : t.Sound) {edit : Row → Row} {f : Unit → Action σ β}
    (hf : ∀ t₁, Ends t₁ (f ()) fun answer _ => ∃ x, answer = .ok x) : Refrains t (write h edit >>= f) := by
  refine .seq (ends_write ht h (fun r b _ _ => .ok ((hf _).imp ?_)) fun _ _ _ => rfl)
  rintro _ _ ⟨_, rfl⟩ _ hfault
  cases hfault

/-- Refused, what is done to the symbol of a handle has at most found out whether the symbol is
there. Either the refresh is refused, or it is not and the rest refrains, so that the refresh was
all that happened. -/
theorem kept {a : Action σ α} (ht : t.Sound)
    (ha : ∀ t₁, t.Refreshed h (.ok ()) t₁ → t₁.Sound → Refrains t₁ a) :
    Ends t (current h a) fun answer t' => ∀ fault, answer = .error fault → t.Kept h t' := by
  refine .current ht h (fun _ _ _ => .inl rfl) (fun fault _ hr _ _ => .inr ⟨.error fault, hr⟩) ?_
  intro t₁ hr
  refine (ha t₁ hr (hr.path.sound ht)).imp fun _ _ hrefrains fault hfault => ?_
  obtain rfl := hrefrains fault hfault
  exact .inr ⟨.ok (), hr⟩

end Refrains

/-- The listener is told without a refusal: it may do things that are refused, but the one who tells
it does not hear of that. -/
theorem answers_emitFor (h : HandleId) (c : Change) (t : Table) :
    Ends t (emitFor notify h c) fun answer _ => ∃ x, answer = .ok x :=
  .look_bind (.emit fun _ _ => ⟨(), rfl⟩)

/-- Whatever a plain edit is refused for, at most it was found out whether the symbol is there.
There is one case for each edit. In each of them the write comes last, and before it there are a
refresh and questions about the copy alone. -/
theorem ends_perform_kept (ht : t.Sound) (h : HandleId) {e : Edit} (he : e.IsPlain) :
    Ends t (perform notify h e) fun answer t' => ∀ fault, answer = .error fault → t.Kept h t' := by
  cases e with
  | setProvenance p =>
    refine .refused_map (Refrains.kept ht fun t₁ _ ht₁ => .look_bind ?_)
    dsimp only
    split
    · exact .of_reads (.pure _)
    · split
      · exact .of_reads (.fail _)
      · exact .bind_of_reads (reads_nameOf h) fun _ => .bind_of_reads (.ask _) fun _ =>
          .write_bind ht₁ (answers_emitFor h _)
  | setPinned pinned =>
    refine .refused_map (Refrains.kept ht fun t₁ _ ht₁ => .look_bind (.look_bind ?_))
    split
    · exact .of_reads (.fail _)
    · split
      · exact .of_reads (.pure _)
      · split
        · exact .of_reads (.pure _)
        · exact .write_bind ht₁ (answers_emitFor h _)
  | setAddress a =>
    refine .refused_map (Refrains.kept ht fun t₁ _ ht₁ => .look_bind (.look_bind ?_))
    split
    · exact .of_reads (.fail _)
    · split
      · exact .of_reads (.pure _)
      · exact .write_bind ht₁ fun _ => .emit fun _ _ => ⟨(), rfl⟩
  | relocate oldBase newBase =>
    refine .refused_map (Refrains.kept ht fun t₁ _ ht₁ => .look_bind ?_)
    dsimp only
    split
    · exact .of_reads (.pure _)
    · split
      · exact Ends.change_bind (.change fun _ hfault => nomatch hfault)
      · refine .write_bind ht₁ fun t₂ => ?_
        split
        · exact .change_bind (.change ⟨(), rfl⟩)
        · exact .change ⟨(), rfl⟩
  | setData1 value | setData2 value | setData3 value =>
    refine .refused_map (Refrains.kept ht fun t₁ _ ht₁ => .look_bind ?_)
    split
    · exact .of_reads (.pure _)
    · split
      · exact .of_reads (.pure _)
      · exact .write_bind ht₁ (answers_emitFor h _)
  | setPrimary =>
    refine .refused_map (Refrains.kept ht fun t₁ _ _ => .look_bind ?_)
    split
    · exact .of_reads (.pure _)
    · refine .look_bind (.look_bind ?_)
      split
      · exact .of_reads (.pure _)
      · exact Ends.change_bind (.seq (.emit fun _ _ => .ok (.pure fun _ hfault => nomatch hfault)))
  | rename | setName | setScope | delete => exact he.elim

end Action

/-! ## What a symbol tells afterwards -/

/-- A query whose answer holds no refusals, and shows no copy of a row that may be out of date. -/
def Query.IsPlain : Query → Prop
  | .description | .snapshot | .references (some _) => False
  | _ => True

/-- If a copy that is out of date is replaced, there is a row. The refresh looks for it under the id
of the old copy, and accepts it only if it has the same kind. -/
theorem Table.Refreshed.exists_row {r : Row} (hr : t.Refreshed h (.ok ()) t')
    (hrow : (t.handle h).row = some r) (hstale : (t.handle h).seenAt ≠ t.store.modificationCount) :
    ∃ row, t.row? r.id = some row ∧ row.tag = r.tag := by
  cases hr with
  | ready hready =>
    rcases hready.current with hnone | hseen
    · cases hrow.symm.trans hnone
    · exact absurd hseen hstale
  | reloaded _ hrow' _ hget htag =>
    cases hrow.symm.trans hrow'
    exact ⟨_, hget, htag⟩

namespace Action

section
variable {s s' : Situated σ} {a : Action σ α} {x : α}

/-- What is done to the symbol of a handle is answered if the table is open, the symbol is there,
and it is answered then. -/
theorem answer_current_iff :
    ((current h a).run s).1 = .ok x ↔ s.table.closed = false ∧ ((refresh h).run s).1 = .ok () ∧
      (a.run ((refresh h).run s).2).1 = .ok x := by
  rw [current, ensureOpen, run_bind, run_ask]
  cases s.table.closed with
  | true => simp
  | false =>
    rw [if_neg Bool.false_ne_true]
    dsimp only
    rw [run_bind]
    cases (refresh h).run s with
    | mk answer s₁ => cases answer <;> simp

/-- A copy of a row that is out of date is replaced. This is what a symbol with an old copy needs:
the row is there and of its kind, so the store that works answers with it. -/
theorem answers_refresh_of_stale {r row : Row} (ht : t.Sound) (hworks : t.store.Works)
    (hlive : (t.handle h).deleted = false) (hrow : (t.handle h).row = some r)
    (hstale : (t.handle h).seenAt ≠ t.store.modificationCount) (hget : t.row? r.id = some row)
    (htag : row.tag = r.tag) :
    Answers t (refresh h : Action σ Unit) fun _ t' =>
      t' = t.updateHandle h (·.refreshed row t.store.modificationCount) := by
  refine .look_bind (.look_bind ?_)
  rw [hlive, if_neg Bool.false_ne_true, hrow]
  dsimp only
  rw [if_neg hstale]
  refine Ends.seq (.getRow ht.backend (.ok ?_) fun _ hfails => absurd hfails hworks.not_mayFail)
  rw [hget]
  dsimp only
  rw [if_pos htag]
  exact Ends.change ⟨(), rfl, rfl⟩

/-- Once the store works, the action is answered the same, whether it was found out before that the
symbol is there or not. -/
def Steady (h : HandleId) (a : Action σ α) : Prop :=
  ∀ ⦃s s' : Situated σ⦄, s.table.Sound → s.table.Kept h s'.table → ∀ x,
    (a.run s'.restored).1 = .ok x ↔ (a.run s.restored).1 = .ok x

/-- What is asked of a symbol once it is current is steady if it is determined. Whether the handle
was refreshed before makes no difference then, since it is refreshed again. -/
theorem steady_current (ha : Determined a) : Steady h (current h a) := by
  intro s s' hs hk x
  have hworks : s.restored.table.store.Works := s.table.works_restored
  have hsame (heq : s'.table = s.table) :
      ((current h a).run s'.restored).1 = .ok x ↔ ((current h a).run s.restored).1 = .ok x := by
    rw [(spreads_determined.current h ha).answer_eq (congrArg Table.restored heq) hworks]
  rcases hk with heq | ⟨answer, hr⟩
  · exact hsame heq
  · have hs' := Table.Kept.sound (.inr ⟨answer, hr⟩) hs
    generalize htable' : s'.table = t' at hr
    cases hr with
    | ready | deleted | failed => exact hsame htable'
    | @reloaded r row hlive hrow hstale hget htag =>
      have hrestored : s'.restored.table = s.restored.table.updateHandle h
          (·.refreshed row s.restored.table.store.modificationCount) := congrArg Table.restored htable'
      obtain ⟨_, hanswer, htable⟩ :=
        answers_refresh_of_stale hs.restored hworks hlive hrow hstale hget htag s.restored rfl
      have hready : s'.restored.table.IsReady h := by
        rw [hrestored]
        exact Table.Refreshed.isReady (.reloaded (t := s.restored.table) hlive hrow hstale hget htag)
      obtain ⟨_, hanswer', htable'⟩ := answers_refresh_of_isReady hready s'.restored rfl
      have hclosed : s'.restored.table.closed = s.restored.table.closed := by
        rw [hrestored]
        rfl
      have hthen := ha.answer_eq (htable'.trans (hrestored.trans htable.symm)) (htable ▸ hworks)
      rw [answer_current_iff, answer_current_iff, hclosed, hanswer, hanswer', hthen]
    | vanished hlive hrow hstale hgone =>
      have hinvalidated : s'.table.handle h = (s.table.handle h).invalidated := by
        rw [htable', Table.handle_abandon]
        exact Table.handle_updateHandle_self s.table (Table.lt_of_live hlive) (·.invalidated)
      have hdeleted : (s'.restored.table.handle h).deleted = true := congrArg Handle.deleted hinvalidated
      refine iff_of_false ?_ ?_ <;> rw [answer_current_iff] <;> rintro ⟨-, hok, -⟩
      · have hr := ends_refresh hs'.restored h s'.restored rfl
        rw [hok] at hr
        cases hr.live.symm.trans hdeleted
      · have hr := ends_refresh hs.restored h s.restored rfl
        rw [hok] at hr
        obtain ⟨row, hget, htag⟩ := hr.exists_row hrow hstale
        exact hgone row hget htag

/-- To make something else of the answer is steady if the action is. It is granted where the action
is granted, and its answer follows from that of the action. -/
theorem Steady.map {f : α → β} (ha : Steady h a) : Steady h (f <$> a) := by
  have hmap (s : Situated σ) (y : β) :
      ((f <$> a).run s).1 = .ok y ↔ ∃ x, (a.run s).1 = .ok x ∧ f x = y := by
    rw [map_eq_pure_bind, run_bind]
    cases a.run s with
    | mk answer s₁ => cases answer <;> simp
  intro s s' hs hk y
  simp only [hmap, ha hs hk]

/-- To ask whether a symbol is there is steady: a handle that was found to be gone is found so
again. A handle that is found to be gone is marked deleted, and then says that it is gone without
another call. -/
theorem steady_isValid (h : HandleId) : Steady h (isValid h : Action σ Bool) := by
  have hanswer (s : Situated σ) :
      ((isValid h).run s).1 = .ok ((current h (pure ())).run s).1.toBool := by
    rw [isValid, run_bind, run_attempt]
    cases ((current h (pure ())).run s).1 <;> rfl
  intro s s' hs hk x
  have hcurrent := steady_current (h := h) (spreads_determined.pure ()) hs hk ()
  rw [hanswer, hanswer]
  cases h₁ : ((current h (pure ())).run s.restored).1 <;>
    cases h₂ : ((current h (pure ())).run s'.restored).1 <;> simp_all [Except.toBool]

/-- What is displayed of a symbol is steady: its name or, if this is refused, the text of its key,
which stays the same. A refusal of the name is steady as well, so the choice between the two is. -/
theorem steady_display (h : HandleId) : Steady h (display h : Action σ String) := by
  have hkey (t : Table) (ht : t.Sound) :
      Ends t (current h (nameOf h) : Action σ String) fun _ t' =>
        (t'.handle h).key = (t.handle h).key := by
    refine .current ht h (fun _ => rfl) (fun fault _ hr => (Table.Kept.handle_eq (.inr ⟨_, hr⟩)).1) ?_
    intro t₁ hr
    refine (reads_nameOf h t₁).imp ?_
    rintro _ _ rfl
    exact (Table.Kept.handle_eq (.inr ⟨_, hr⟩)).1
  have hanswer (s : Situated σ) (hs : s.table.Sound) :
      ((display h).run s).1 = .ok (((current h (nameOf h)).run s).1.toOption.getD
        ("<invalid " ++ (s.table.handle h).key.text ++ ">")) := by
    rw [display, run_bind, run_attempt, ← hkey s.table hs s rfl]
    cases ((current h (nameOf h)).run s).1 <;> rfl
  intro s s' hs hk x
  have hcurrent := steady_current (spreads_determined.nameOf h) hs hk
  have hkeys : (s'.restored.table.handle h).key = (s.restored.table.handle h).key := hk.handle_eq.1
  rw [hanswer s.restored hs.restored, hanswer s'.restored (hk.sound hs).restored, hkeys]
  cases h₁ : ((current h (nameOf h)).run s.restored).1 with
  | ok name => rw [(hcurrent name).2 h₁]
  | error fault =>
    cases h₂ : ((current h (nameOf h)).run s'.restored).1 with
    | ok name => cases h₁.symm.trans ((hcurrent name).1 h₂)
    | error fault' => rfl

/-- Every plain query is steady. The others hold refusals in their answers, or show a copy that may
be out of date. The proof goes through the plain queries, of which most are told from the copy, and
the others ask the store what does not depend on the handle. -/
theorem steady_answer (h : HandleId) {q : Query} (hq : q.IsPlain) :
    Steady h (answer h q : Action σ (Reply HandleId)) := by
  have hlook {γ : Type} (f : Table → γ) : Steady h (current h (look f) : Action σ γ) :=
    steady_current (spreads_determined.look f)
  have hcount (limit : Option Nat) : Determined (countOwned h limit : Action σ Nat) :=
    spreads_determined.countOwned h limit
  cases q with
  | description | snapshot => exact hq.elim
  | isValid => exact .map (steady_isValid h)
  | display => exact .map (steady_display h)
  | isDerived =>
    intro s s' _ hk x
    have hderived : (s'.restored.table.handle h).isDerived = (s.restored.table.handle h).isDerived :=
      hk.handle_eq.2
    rw [answer, run_look, run_look, hderived]
  | key =>
    intro s s' _ hk x
    have hkey : (s'.restored.table.handle h).key = (s.restored.table.handle h).key := hk.handle_eq.1
    rw [answer, run_look, run_look, hkey]
  | name => exact .map (steady_current (spreads_determined.nameOf h))
  | qualifiedName bare =>
    refine .map ?_
    cases bare with
    | true => exact steady_current (spreads_determined.nameOf h)
    | false => exact .map (steady_current (spreads_determined.pathOf h))
  | path => exact .map (steady_current (spreads_determined.pathOf h))
  | parent =>
    refine .map (steady_current (.bind (spreads_determined.look _) fun scope => ?_))
    split
    · exact spreads_determined.pure _
    · exact spreads_determined.lookup _
  | encloses scope => exact .map (steady_current (spreads_determined.encloses h scope))
  | referenceCount => exact .map (steady_current (hcount none))
  | hasReferences => exact .map (steady_current (spreads_determined.map (hcount (some 1))))
  | hasSeveralReferences => exact .map (steady_current (spreads_determined.map (hcount (some 2))))
  | references watch? =>
    cases watch? with
    | none => exact .map (hlook _)
    | some w => exact hq.elim
  | address | scope | isGlobal | provenance | isPinned | data1 | data2 | data3 | isPrimary
  | isEntryPoint => exact .map (hlook _)

end

end Action

/-! ## Rows that stand for kinds -/

namespace Table

/-- An open table whose rows stand for kinds. -/
structure Kinded (t : Table) : Prop where
  sound : t.Sound
  opened : t.closed = false
  kinds : ∀ r ∈ t.rows, ∃ k, r.kind? = some k

namespace Kinded

/-- Steps keep the table open and every row of a kind, as long as nobody writes rows from
outside. -/
theorem of_path {may : Deed → Prop} (ht : t.Kinded) (hpath : Path may t t') (hintrude : ¬ may .intrude) :
    t'.Kinded :=
  ⟨hpath.sound ht.sound, hpath.sameFrame.closed.trans ht.opened, hpath.kinds hintrude ht.sound ht.kinds⟩

/-- What goes on beside rows and handles keeps the table open and every row of a kind. -/
theorem of_beside (ht : t.Kinded) (hbeside : t.Beside t') : t'.Kinded :=
  ht.of_path (.single (.aside hbeside) : Path (fun _ => False) t t') not_false

/-- To mark a handle, or to take the mark away, changes no row. -/
theorem mark (ht : t.Kinded) (h : HandleId) (deleting : Bool) :
    (t.updateHandle h fun s => { s with deleting := deleting }).Kinded := by
  have hstep : Step (Eq .remove) t (t.updateHandle h fun s => { s with deleting := deleting }) :=
    .mark rfl h deleting
  exact ht.of_path (.single hstep) nofun

/-- To take a row out leaves the others with their kinds. The handle of the one that is taken out is
marked deleted. -/
theorem release {id : SymbolId} {b : Store.Backend} (ht : t.Kinded)
    (hremoves : t.store.backend.Removes id b) : ((t.withBackend b).release h id).Kinded := by
  refine ⟨⟨hremoves.sound, fun k => ?_⟩, ht.opened, fun r hr => ht.kinds r ((hremoves.mem_rows r).1 hr).1⟩
  rw [handle_release, handle_updateHandle_withBackend]
  exact forall_updateHandle ht.sound.inOrder Handle.inOrder_invalidated k

end Kinded

end Table

/-! ## Deletions that are refused -/

namespace Action

/-- If the action is refused, the store failed. -/
def ByStore (answer : Except Fault α) : Prop :=
  ∀ fault, answer = .error fault → ∃ cause, fault = .store cause

/-- What is answered is not refused. -/
theorem ByStore.of_ok (x : α) : ByStore (.ok x) :=
  fun _ hfault => nomatch hfault

/-- A call of the store that failed is a failure of the store, so what is refused for it alone is
refused by the store. -/
theorem ByStore.of_failsToGet {answer : Except Fault α}
    (hfails : ∀ fault, answer = .error fault → t.FailsToGet fault) : ByStore answer := by
  intro fault hfault
  obtain ⟨cause, _, rfl, -⟩ := hfails fault hfault
  exact ⟨cause, rfl⟩

/-- In an open table whose rows stand for kinds, only the store refuses the action, and the table
stays so. -/
def Sturdy (a : Action σ α) : Prop :=
  ∀ t : Table, t.Kinded → Ends t a fun answer t' => t'.Kinded ∧ ByStore answer

namespace Sturdy

/-- If only the store refuses either of two actions, only the store refuses them one after the
other. The second one starts at a table that the first one has left sound, so what is known of it
may be used there. -/
theorem bind {a : Action σ α} {f : α → Action σ β} (ha : Sturdy a) (hf : ∀ x, Sturdy (f x)) :
    Sturdy (a >>= f) := by
  intro t ht
  refine .bind (ha t ht) (fun x t₁ h₁ => hf x t₁ h₁.1) ?_
  rintro fault t₁ ⟨ht₁, hstore⟩
  refine ⟨ht₁, ?_⟩
  rintro _ ⟨⟩
  exact hstore fault rfl

/-- Just to answer is not refused. -/
theorem pure (x : α) : Sturdy (Pure.pure x : Action σ α) :=
  fun _ ht => .pure ⟨ht, .of_ok _⟩

/-- To look at the table is not refused. -/
theorem look (q : Table → α) : Sturdy (look q : Action σ α) :=
  fun _ ht => .look ⟨ht, .of_ok _⟩

/-- A change is sturdy if it keeps the table open and every row of a kind. -/
theorem change {f : Table → Table} (hf : ∀ t : Table, t.Kinded → (f t).Kinded) :
    Sturdy (change f : Action σ Unit) :=
  fun t ht => .change ⟨hf t ht, .of_ok _⟩

/-- To make something else of the answer is sturdy if the action is. -/
theorem map {a : Action σ α} {f : α → β} (ha : Sturdy a) : Sturdy (f <$> a) := by
  rw [map_eq_pure_bind]
  exact ha.bind fun x => pure (f x)

/-- A list of deeds is sturdy if each of them is, by induction on the list. -/
theorem forM {f : α → Action σ PUnit} (hf : ∀ x, Sturdy (f x)) (xs : List α) : Sturdy (xs.forM f) := by
  induction xs with
  | nil => exact pure _
  | cons x xs ih => exact (hf x).bind fun _ => ih

/-- To tell a listener that only records is sturdy. Nothing is asked of the store for it. -/
theorem emit (hn : notify.Records) (key : Key) (a : Address) (c : Change) : Sturdy (emit notify key a c) := by
  intro t ht
  refine .emit ?_
  rintro s rfl
  exact ⟨ht.of_beside (hn.beside _ s), .of_ok _⟩

end Sturdy

/-- To find the handle of an id is refused by the store alone. The kind that a handle needs can be
had of every row here. -/
theorem sturdy_pooled_handleOfRow (id : SymbolId) :
    Sturdy (pooled (.stored id) (handleOfRow id) : Action σ _) := by
  have hmake (t : Table) (ht : t.Kinded) : Ends t (handleOfRow id : Action σ _) fun answer _ =>
      ByStore answer := by
    refine .look_bind (.seq (.getRow ht.sound.backend (.ok ?_) ?_))
    · split
      · exact .pure (.of_ok _)
      · rename_i r hget
        obtain ⟨k, hkind⟩ := ht.kinds r (Table.mem_of_row? hget)
        rw [Handle.ofRow, hkind]
        exact .pure (.of_ok _)
    · rintro cause - _ ⟨⟩
      exact ⟨cause, rfl⟩
  intro t ht
  refine ((follows_pooled_handleOfRow (c := .steps Table.upkeep) id t ht.sound).imp fun _ _ hpath =>
    ht.of_path hpath not_false).and ?_
  refine .look_bind ?_
  split
  · exact .pure (.of_ok _)
  · refine .bind (hmake t ht) ?_ ?_
    · rintro s? t₁ -
      split
      · exact .pure (.of_ok _)
      · exact .look_bind (.change_bind (.pure (.of_ok _)))
    · rintro fault _ hstore _ ⟨⟩
      exact hstore fault rfl

/-- To look up an id is refused by the store alone. A handle in the pool that turns out to be gone
is no refusal: a new one takes its place, or there is none. What is left are calls. -/
theorem sturdy_lookup (id : SymbolId) : Sturdy (lookup id : Action σ _) := by
  intro t ht
  refine .look_bind ?_
  split
  · exact sturdy_pooled_handleOfRow id t ht
  · refine .attempt_bind (ends_refresh ht.sound _) fun answer t₁ hr => ?_
    have ht₁ := ht.of_path hr.path not_false
    split
    · exact .pure ⟨ht₁, .of_ok _⟩
    · exact sturdy_pooled_handleOfRow id t₁ ht₁
    · rename_i fault hstate
      refine .fail ⟨ht₁, ?_⟩
      rintro _ ⟨⟩
      rcases hr.state_or_store with ⟨cause, rfl⟩ | ⟨hstore, -⟩
      · exact absurd rfl (hstate cause)
      · exact hstore

/-- The members of a scope are deleted one after the other, so it is refused by the store alone to
clear the scope if this is so of each deletion. -/
theorem sturdy_clearScope {delete : HandleId → Action σ Bool} (hdelete : ∀ h, Sturdy (delete h))
    (scope : Scope) : Sturdy (clearScope delete scope) := by
  have hmember (id : SymbolId) : Sturdy (clearMember delete id) := by
    refine .bind (sturdy_lookup id) fun child? => ?_
    split
    · exact .pure _
    · refine .bind (.look _) fun deleting => ?_
      split
      · exact .pure _
      · exact .map (hdelete _)
  intro t ht
  refine .seq (.rowsIn ht.sound.backend (.ok ?_) ?_)
  · exact Sturdy.forM (fun r : Row => hmember r.id) _ t ht
  · rintro cause -
    refine ⟨ht, ?_⟩
    rintro _ ⟨⟩
    exact ⟨cause, rfl⟩

/-- To pass a designation on is refused by the store alone, when it does not say who else lies at
the address. Which rows lie there is the only question. The kinds of all of them are known, so none
is passed over by a fault. -/
theorem sturdy_passPrimary (a : Address) (id : SymbolId) : Sturdy (passPrimary a id : Action σ _) := by
  refine .bind (.look _) fun primary? => ?_
  split
  · refine .bind (.bind ?_ fun _ => .look _) fun _ => .change fun t ht => ⟨⟨ht.sound.backend, ht.sound.inOrder⟩, ht.opened, ht.kinds⟩
    intro t ht
    refine .rowsAt ht.sound.backend ⟨ht, .of_ok _⟩ ?_
    rintro cause -
    refine ⟨ht, ?_⟩
    rintro _ ⟨⟩
    exact ⟨cause, rfl⟩
  · exact .pure _

/-- To take a row out is refused by the store alone. The row may be found missing, which is
answered. The name that is noted may be borrowed, and then its lender is asked for. -/
theorem sturdy_removeRow (hn : notify.Records) (h : HandleId) (r : Row) : Sturdy (removeRow notify h r) := by
  have hname : Sturdy (displayName r : Action σ _) := by
    intro t ht
    refine (ends_displayName ht.sound.backend r).imp ?_
    rintro answer _ ⟨rfl, hfault⟩
    exact ⟨ht, .of_failsToGet fun fault hf => (hfault fault hf).1⟩
  have htake : Sturdy (takeOut h r.id : Action σ _) := by
    intro t ht
    refine .seq (.takeRow ht.sound.backend (fun b hremoves => .ok (.change_bind (.pure ?_))) ?_)
    · exact ⟨ht.release hremoves, .of_ok _⟩
    · rintro cause -
      refine ⟨ht, ?_⟩
      rintro _ ⟨⟩
      exact ⟨cause, rfl⟩
  exact .bind hname fun _ => .bind htake fun _ => .bind (sturdy_passPrimary _ _) fun _ =>
    .bind (.change fun _ ht => ht.of_beside ⟨rfl, rfl, rfl, rfl, rfl, rfl⟩) fun _ =>
      .bind (.emit hn _ _ _) fun _ => .pure _

/-- To delete a symbol whose handle is marked is refused by the store alone, if this is so of the
deletions on the level below. -/
theorem sturdy_deleteMarked (hn : notify.Records) {delete : HandleId → Action σ Bool}
    (hdelete : ∀ h, Sturdy (delete h)) (h : HandleId) : Sturdy (deleteMarked notify delete h) := by
  have hremove : Sturdy (removeWith notify delete h) := by
    refine .bind (.look _) fun s => ?_
    split
    · exact .pure _
    · rename_i r _
      dsimp only
      split
      · exact .bind (sturdy_clearScope hdelete _) fun _ => sturdy_removeRow hn h r
      · exact sturdy_removeRow hn h r
  intro t ht
  refine .attempt_bind (ends_refresh ht.sound h) fun answer t₁ hr => ?_
  have ht₁ := ht.of_path hr.path not_false
  split
  · exact .pure ⟨ht₁, .of_ok _⟩
  · rename_i fault hstate
    refine .fail ⟨ht₁, ?_⟩
    rintro _ ⟨⟩
    rcases hr.state_or_store with ⟨cause, rfl⟩ | ⟨hstore, -⟩
    · exact absurd rfl (hstate cause)
    · exact hstore
  · refine .look_bind ?_
    split
    · exact .pure ⟨ht₁, .of_ok _⟩
    · exact hremove t₁ ht₁

/-- Deletions nest, and on each level only the store refuses them. The induction is on the depth. At
depth zero nothing is deleted and nothing is refused. -/
theorem sturdy_deleteWithin (hn : notify.Records) (depth : Nat) (h : HandleId) :
    Sturdy (deleteWithin notify depth h) := by
  induction depth generalizing h with
  | zero => exact .pure false
  | succ depth ih =>
    intro t ht
    refine .ask_bind (fun _ _ => .look_bind ?_) fun fault hfault => ?_
    · split
      · exact .pure ⟨ht, .of_ok _⟩
      · refine .change_bind (.attempt_bind (sturdy_deleteMarked hn ih h _ (ht.mark h true)) ?_)
        rintro answer t₁ ⟨ht₁, hstore⟩
        exact .change_bind (.conclude ⟨ht₁.mark h false, hstore⟩)
    · rw [ht.opened] at hfault
      cases hfault

/-- A deletion is refused by the store alone. So no deletion stops half way in a store that
works. -/
theorem sturdy_delete (hn : notify.Records) (h : HandleId) : Sturdy (delete notify h) :=
  .bind (.look _) fun _ => sturdy_deleteWithin hn _ h

end Action

/-! ## Refusals in runs -/

/-- A move that creates, changes or deletes a symbol. -/
def Move.Mutates : Move → Prop
  | .create _ | .edit _ _ => True
  | _ => False

/-- Refused for another reason than a failure of the store, a move leaves no trace. Moves that name
something are refused before they write (`Move.rejects`), edits of a single row as the last thing
that they do, and deletions by the store alone. -/
theorem Move.ends_untouched (hn : notify.Records) (ht : t.Reliable) (hkinded : t.Kinded) {m : Move}
    (hm : m.Mutates) : Ends t (m.action notify) fun answer t' =>
      ∀ fault, answer = .error fault → (∀ cause, fault ≠ .store cause) → t.Untouched t' := by
  by_cases hnames : m.Names
  · refine (Move.rejects hn ht hnames).imp fun answer t' hrejected fault hfault hcause => ?_
    cases hrejected fault hfault with
    | untouched huntouched => exact huntouched
    | unwritten hstore => exact absurd hstore (hcause _)
    | torn _ hfails =>
      obtain ⟨cause, _, hstore, -⟩ := hfails
      exact absurd hstore (hcause cause)
  · cases m with
    | create => exact absurd trivial hnames
    | edit h e =>
      refine .refused_map ?_
      cases e with
      | rename | setName | setScope => exact absurd trivial hnames
      | delete =>
        refine .refused_map ((sturdy_delete hn h t hkinded).imp fun _ _ hdelete fault hfault hcause => ?_)
        obtain ⟨cause, rfl⟩ := hdelete.2 fault hfault
        exact absurd rfl (hcause cause)
      | _ =>
        refine Ends.imp (ends_perform_kept ht.sound h ?_) fun _ _ hkept fault hfault _ => ?_
        · trivial
        · exact (hkept fault hfault).untouched
    | query | search | put | take => exact hm.elim

/-- **Refusals leave no trace.** Whatever was done through a table since it was opened empty,
whichever calls of the store failed, and as long as the writes fit a word: if a symbol is not
created, changed or deleted for another reason than a failure of the store, then the store, the
designations, the references, the journal and the log are as before. For what neither names nor
deletes a symbol this holds whatever the reason is, and once the store works, the symbol tells the
same as it would have told before. -/
theorem Runs.refusals_leave_no_trace {rules : Rules} {s₀ s : Situated σ} (hnew : s₀.table.IsNew rules)
    (hrun : Runs (fun nested _ m => nested = false ∧ m.goesThrough) false s₀ s)
    (hlt : s.table.writes < UInt64.size) (hn : notify.Records) :
    (∀ (m : Move) (fault : Fault), m.Mutates → ((m.action notify).run s).1 = .error fault →
      (∀ cause, fault ≠ .store cause) → s.table.Untouched ((m.action notify).run s).2.table) ∧
    ∀ (h : HandleId) (e : Edit) (fault : Fault), e.IsPlain →
      (((Move.edit h e).action notify).run s).1 = .error fault →
      let s' := (((Move.edit h e).action notify).run s).2
      s.table.Untouched s'.table ∧ ∀ (q : Query) (reply : Reply HandleId), q.IsPlain →
        (((answer h q).run s'.restored).1 = .ok reply ↔ ((answer h q).run s.restored).1 = .ok reply) := by
  have ht := Runs.reliable hnew hrun hlt
  have hkinded : s.table.Kinded := by
    have hpath : Path (· ≠ .intrude) s₀.table s.table := by
      refine hrun.path nofun ?_ hnew.sound
      rintro _ t m ⟨-, hm⟩
      exact .of_goesThrough hm nofun (fun _ _ => nofun) (fun _ _ _ _ => nofun) fun _ _ _ _ _ => nofun
    refine Table.Kinded.of_path ⟨hnew.sound, hnew.closed_eq, ?_⟩ hpath fun hintrude => hintrude rfl
    simp [hnew.rows_eq]
  refine ⟨fun m fault hm hfault hcause => ?_, fun h e fault he hfault => ?_⟩
  · exact Move.ends_untouched hn ht hkinded hm s rfl fault hfault hcause
  · have hkept := Ends.refused_map (ends_perform_kept ht.sound h he) s rfl fault hfault
    exact ⟨hkept.untouched, fun q reply hq => steady_answer h hq ht.sound hkept reply⟩

/-- A label does not move into a scope that is not there. When the disk is full, it does not get
another datum either, and it still tells the old one when there is room again. -/
theorem Runs.refusals_leave_no_trace_of_labels :
    let id : SymbolId := ⟨9, by decide⟩
    let s₀ : Situated Unit := ⟨.empty default .standard, (), 0⟩
    let label : Move := .create ⟨"start", .label, .ram 16, .global, .userDefined, 3, 0, none⟩
    let s₁ := ((label.action Listener.recorder).run s₀).2
    let full : StoreFault := .io "the disk is full"
    let s := s₁.withOutages (.ofRules [⟨.put, none, full⟩])
    let go (e : Edit) := ((Move.edit 0 e).action Listener.recorder).run s
    s₀.table.IsNew .standard ∧ Runs (fun nested _ m => nested = false ∧ m.goesThrough) false s₀ s ∧
      s.table.writes < UInt64.size ∧
      (go (.setScope (.of id))).1 = .error (.input (.missingParent (.of id))) ∧
      s.table.Untouched (go (.setScope (.of id))).2.table ∧
      (go (.setData1 7)).1 = .error (.store full) ∧ s.table.Untouched (go (.setData1 7)).2.table ∧
      ((answer 0 .data1).run (go (.setData1 7)).2.restored).1 = .ok (.long 3) := by
  intro id s₀ label s₁ full s go
  have hnew : s₀.table.IsNew .standard := .memory _ _ _
  have hrecorder (e : Event) (x : Situated Unit) :
      Runs (fun nested _ m => nested = false ∧ m.goesThrough) true x (Listener.recorder e x) :=
    .drift .refl (Listener.records_recorder.beside e x).drifts
  have hrun₁ : Runs (fun nested _ m => nested = false ∧ m.goesThrough) false s₀ s₁ :=
    .move (m := label) .refl ⟨rfl, trivial⟩ hrecorder
  have hrun : Runs (fun nested _ m => nested = false ∧ m.goesThrough) false s₀ s := hrun₁.withOutages _
  have hlt : s.table.writes < UInt64.size := by decide
  have hmissing : (go (.setScope (.of id))).1 = .error (.input (.missingParent (.of id))) := by decide
  have hfull : (go (.setData1 7)).1 = .error (.store full) := by decide
  have htold : ((answer 0 .data1).run s.restored).1 = .ok (.long 3) := by
    dsimp +zetaDelta only
    rfl
  obtain ⟨huntouched, hplain⟩ := Runs.refusals_leave_no_trace hnew hrun hlt Listener.records_recorder
  obtain ⟨huntouched₁, htells⟩ := hplain 0 (.setData1 7) _ trivial hfull
  exact ⟨hnew, hrun, hlt, hmissing, huntouched (.edit 0 _) _ trivial hmissing nofun, hfull, huntouched₁,
    (htells .data1 (.long 3) trivial).2 htold⟩

end SymbolTable
