import SymbolTable.Proofs.Action.Course
import SymbolTable.Workspace.Comparison

/-!
# Actions at other tables

An action that leaves alone what is around its table (`Action.Inward`) can be run at any table of a
workspace, and then nothing is different but that table (`Action.tables_within`). So what is known
of it at one table holds in the workspace. `Action.Yields` says so of actions that keep up handles
and do nothing else, at one table or at several, one after the other. Where calls of the store may
fail, `Action.Reveals` says what is known if they are answered.
-/

namespace SymbolTable

open Table (Path upkeep)

variable {σ α β : Type}

namespace Action

/-! ## Actions that stay inside -/

/-- Whatever it is run at, the action leaves alone what is around the table. -/
def Inward (a : Action σ α) : Prop :=
  ∀ s : Situated σ, (a.run s).2.around = s.around

namespace Inward

/-- Just to answer leaves alone what is around the table. With the next lemmas, every action that
does not call the listener is found to be inward part by part. -/
theorem pure (x : α) : Inward (Pure.pure x : Action σ α) := fun _ => rfl

/-- Just to refuse leaves alone what is around the table. -/
theorem fail (fault : Fault) : Inward (fail fault : Action σ α) := fun _ => rfl

/-- To look at the table leaves alone what is around it. -/
theorem look (q : Table → α) : Inward (look q : Action σ α) := fun _ => rfl

/-- To look at the table, and perhaps refuse for what is seen, leaves alone what is around it. -/
theorem ask (q : Table → Except Fault α) : Inward (ask q : Action σ α) := fun _ => rfl

/-- To change the table leaves alone what is around it, whatever the change is. -/
theorem change (f : Table → Table) : Inward (change f : Action σ Unit) := fun _ => rfl

/-- To ask the store leaves alone what is around the table. The moment, which decides whether the
call fails, is of the table itself. -/
theorem askStore (q : Store → Nat → Except StoreFault α) : Inward (askStore q : Action σ α) := fun _ => rfl

/-- To end with an answer or a fault that is settled already leaves alone what is around the
table. -/
theorem conclude (r : Except Fault α) : Inward (conclude r : Action σ α) := by
  intro s
  rw [run_conclude]

/-- To go on in spite of a fault leaves alone what the action leaves alone. -/
theorem attempt {a : Action σ α} (h : Inward a) : Inward (attempt a) := h

/-- Inward actions one after the other are inward. If the first one is refused, nothing else is
done, and otherwise what is around the table is the same for the second. -/
theorem bind {a : Action σ α} {f : α → Action σ β} (ha : Inward a) (hf : ∀ x, Inward (f x)) : Inward (a >>= f) := by
  intro s
  have haround := ha s
  rw [run_bind]
  cases hrun : a.run s with
  | mk answer s' =>
    rw [hrun] at haround
    cases answer with
    | ok x => exact (hf x s').trans haround
    | error => exact haround

/-- To make something else of the answer is inward if the action is. -/
theorem map {a : Action σ α} {f : α → β} (ha : Inward a) : Inward (f <$> a) := by
  rw [map_eq_pure_bind]
  exact ha.bind fun x => pure (f x)

end Inward

/-- A refresh is inward: it changes a handle and asks the store. The proof goes through its cases,
as the action does, by what is seen of the handle. -/
theorem inward_refresh (h : HandleId) : Inward (refresh h : Action σ Unit) := by
  refine .bind (.look _) fun s => .bind (.look _) fun now => ?_
  split
  · exact .fail _
  · split
    · exact .pure _
    · split
      · exact .pure _
      · refine .bind (.askStore _) fun row? => ?_
        split
        · split
          · exact .change _
          · exact .bind (.change _) fun _ => .fail _
        · exact .bind (.change _) fun _ => .fail _

/-- What is done once the handle is current is inward if it is so by itself. -/
theorem Inward.current {a : Action σ α} (ha : Inward a) (h : HandleId) : Inward (current h a) :=
  .bind (.ask _) fun _ => .bind (inward_refresh h) fun _ => ha

/-- To ask whether a symbol is there is inward. -/
theorem inward_isValid (h : HandleId) : Inward (isValid h : Action σ Bool) := by
  refine .bind (.attempt ((Inward.pure ()).current h)) fun answer => ?_
  split <;> exact .pure _

/-- To tell what a handle says is inward. -/
theorem inward_telling (h : HandleId) (q : Handle → α) : Inward (telling h q : Action σ α) :=
  (Inward.look _).current h

/-- The name that a row shows is found by inward actions, by induction on the depth that is left.
Each step asks the store for one row, or none if the depth is used up. -/
theorem inward_shownName (depth : Nat) (visited : List SymbolId) (r : Row) :
    Inward (shownName depth visited r : Action σ String) := by
  induction depth generalizing visited r with
  | zero => exact .look _
  | succ depth ih =>
    unfold shownName
    split
    · exact .pure _
    · refine .bind (.look _) fun lender? => ?_
      split
      · exact .look _
      · split
        · exact .look _
        · refine .bind (.askStore _) fun row? => ?_
          split
          · exact .look _
          · exact ih _ _

/-- To ask for the name of a symbol is inward. It asks only the store of its table. -/
theorem inward_nameOf (h : HandleId) : Inward (nameOf h : Action σ String) := by
  refine .bind (.look _) fun s => ?_
  split
  · exact .bind (.look _) fun depth => inward_shownName depth _ _
  · exact .look _

/-- To find the handle of an id, or to make it, is inward: what is new is in the pool of the table.
The pool is a part of the table, and so is the list of handles, to which the new one is added. -/
theorem inward_pooled_handleOfRow (key : Key) (id : SymbolId) :
    Inward (pooled key (handleOfRow id) : Action σ (Option HandleId)) := by
  refine .bind (.look _) fun h? => ?_
  split
  · exact .pure _
  · refine .bind (.bind (.look _) fun now => .bind (.askStore _) fun row? => ?_) fun s? => ?_
    · split
      · exact .pure _
      · exact .map (.conclude _)
    · split
      · exact .pure _
      · exact .bind (.look _) fun _ => .bind (.change _) fun _ => .pure _

/-- To look up an id is inward. It is refreshed if it was in the pool, and a handle that turns out
to be gone makes no difference to what is around. -/
theorem inward_lookup (id : SymbolId) : Inward (lookup id : Action σ (Option HandleId)) := by
  refine .bind (.look _) fun h? => ?_
  split
  · exact inward_pooled_handleOfRow _ id
  · refine .bind (.attempt (inward_refresh _)) fun answer => ?_
    split
    · exact .pure _
    · exact inward_pooled_handleOfRow _ id
    · exact .fail _

/-- To ask for the scope of a symbol is inward, so a walk up the parents stays in one table. -/
theorem inward_parentOf (h : HandleId) : Inward (parentOf h : Action σ (Option HandleId)) := by
  refine Inward.current (.bind (.look _) fun scope => ?_) h
  split
  · exact .pure _
  · exact inward_lookup _

end Action

/-! ## Turning to a table -/

namespace Workspace

variable {w w' w'' : Workspace} {n : Nat}

/-- The table at a place that there is does not depend on what stands for the others. -/
theorem getElem_tables (hn : n < w.tables.length) : w.tables[n] = w.tableAt n := by
  rw [tableAt, List.getD_eq_getElem?_getD, List.getElem?_eq_getElem hn]
  rfl

/-- The table at hand is the one at the place where the workspace is. -/
theorem tableAt_here (w : Workspace) : w.tableAt w.here = w.table := by
  simp [tableAt, tables, here]

/-- The workspace that has the table at this place at hand. What is at hand and what lies before and
after it are put together in this way whatever table was at hand. -/
theorem turnTo_eq (hn : n < w.tables.length) :
    w.turnTo n =
      ⟨w.tableAt n, { w.around with before := w.tables.take n, after := w.tables.drop (n + 1) }, w.clock⟩ := by
  unfold turnTo
  split
  · rename_i hhere
    subst hhere
    rw [w.tableAt_here]
    simp [tables, here]
  · rw [List.drop_eq_getElem_cons hn, getElem_tables hn]

/-- To turn to another table changes none of them. -/
theorem tables_turnTo (hn : n < w.tables.length) : (w.turnTo n).tables = w.tables := by
  rw [turnTo_eq hn, tables, ← getElem_tables hn, List.getElem_cons_drop, List.take_append_drop]

/-- The table at hand, once the workspace has turned to a place, is the one at that place. -/
theorem table_turnTo (hn : n < w.tables.length) : (w.turnTo n).table = w.tableAt n := by
  rw [turnTo_eq hn]

/-- There is always a table at hand, so the workspace is at a place that there is. -/
theorem here_lt (w : Workspace) : w.here < w.tables.length := by
  rw [here, tables, List.length_append, List.length_cons]
  omega

/-- A table that was put in a place is found there. -/
theorem tableAt_of_set {t : Table} (hn : n < w.tables.length) (htables : w'.tables = w.tables.set n t) :
    w'.tableAt n = t := by
  rw [tableAt, htables, List.getD_eq_getElem?_getD, List.getElem?_set_self hn]
  rfl

/-- A table that was put in a place changes no other place. Other places of the list of tables are
the same. -/
theorem tableAt_of_set_of_ne {t : Table} {m : Nat} (hm : m < w.tables.length) (hne : n ≠ m)
    (htables : w'.tables = w.tables.set n t) : w'.tableAt m = w.tableAt m := by
  rw [tableAt, tableAt, htables, List.getD_eq_getElem?_getD, List.getD_eq_getElem?_getD,
    List.getElem?_set_ne hne, List.getElem?_eq_getElem hm]
  rfl

/-- The handles of all tables are kept up, and nothing else is done to them. -/
structure Upheld (w w' : Workspace) : Prop where
  length_eq : w'.tables.length = w.tables.length
  path : ∀ n, n < w.tables.length → Path upkeep (w.tableAt n) (w'.tableAt n)

/-- A workspace to which nothing happens is upheld. -/
theorem Upheld.refl (w : Workspace) : w.Upheld w :=
  ⟨rfl, fun _ _ => .refl⟩

/-- A workspace that is upheld twice is upheld over both. The places of the tables stay the same, so
they are compared one by one. -/
theorem Upheld.trans (h : w.Upheld w') (h' : w'.Upheld w'') : w.Upheld w'' :=
  ⟨h'.length_eq.trans h.length_eq, fun n hn => (h.path n hn).trans (h'.path n (h.length_eq.symm ▸ hn))⟩

end Workspace

namespace Action

open Workspace

variable {w : Workspace} {n : Nat} {a : Action Surroundings α} {P Q : α → Workspace → Prop}

/-- What an inward action does at another table is all that is done in the workspace. It is run with
the workspace turned to this table and turned back after it, and it leaves the other tables
alone. -/
theorem tables_within (hn : n < w.tables.length) (ha : Inward a) :
    tables ((within n a).run w).2 = w.tables.set n (a.run (w.turnTo n)).2.table := by
  have htables : tables (a.run (w.turnTo n)).2 = w.tables.set n (a.run (w.turnTo n)).2.table := by
    rw [tables, ha, turnTo_eq hn, List.set_eq_take_cons_drop _ hn]
  have hhere : w.here < (tables (a.run (w.turnTo n)).2).length := by
    rw [htables, List.length_set]
    exact w.here_lt
  exact (tables_turnTo hhere).trans htables

section
variable (hn : n < w.tables.length) (ha : Inward a)

include hn ha

/-- After an inward action at another table, the table there is the one at which the action ends
when it is run there. -/
theorem tableAt_within : tableAt ((within n a).run w).2 n = (a.run (w.turnTo n)).2.table :=
  tableAt_of_set hn (tables_within hn ha)

/-- An inward action that keeps up the handles of one table keeps up those of all tables. At the
other tables nothing is done at all, which keeps up their handles as well. -/
theorem upheld_within (hpath : Path upkeep (w.tableAt n) (a.run (w.turnTo n)).2.table) :
    w.Upheld ((within n a).run w).2 := by
  have htables := tables_within hn ha
  refine ⟨?_, fun m hm => ?_⟩
  · rw [htables, List.length_set]
  · by_cases hne : n = m
    · subst hne
      rw [tableAt_within hn ha]
      exact hpath
    · rw [tableAt_of_set_of_ne hm hne htables]

end

/-- Run in a workspace, the action is not refused, it keeps up handles and does nothing else, and
`P` holds of its answer and of the workspace then. -/
def Yields (w : Workspace) (a : Action Surroundings α) (P : α → Workspace → Prop) : Prop :=
  ∃ x w', a.run w = (.ok x, w') ∧ w.Upheld w' ∧ P x w'

namespace Yields

/-- Just to answer yields what holds of the answer already. -/
theorem pure {x : α} (h : P x w) : Yields w (Pure.pure x) P :=
  ⟨x, w, rfl, .refl w, h⟩

/-- What an action yields is what the next one may start from, in a workspace that has been upheld
meanwhile. What it is upheld by is put together over both. -/
theorem bind {f : α → Action Surroundings β} {Q : β → Workspace → Prop} (h : Yields w a P)
    (hf : ∀ x w', w.Upheld w' → P x w' → Yields w' (f x) Q) : Yields w (a >>= f) Q := by
  obtain ⟨x, w₁, hrun, hupheld, hx⟩ := h
  obtain ⟨y, w₂, hrun', hupheld', hy⟩ := hf x w₁ hupheld hx
  refine ⟨y, w₂, ?_, hupheld.trans hupheld', hy⟩
  rw [run_bind, hrun]
  exact hrun'

/-- What is yielded may be weakened, and it may be used then that the workspace was upheld. -/
theorem imp (h : Yields w a P) (hP : ∀ x w', w.Upheld w' → P x w' → Q x w') : Yields w a Q := by
  obtain ⟨x, w', hrun, hupheld, hx⟩ := h
  exact ⟨x, w', hrun, hupheld, hP x w' hupheld hx⟩

/-- What an inward action answers at a table is answered where it is run at that table of a
workspace. Its table is kept up by it, and the others are not touched, so the workspace is
upheld. -/
theorem within {P : α → Table → Prop} (hn : n < w.tables.length) (ha : Inward a)
    (h : Answers (w.tableAt n) a fun x t => Path upkeep (w.tableAt n) t ∧ P x t) :
    Yields w (within n a) fun x w' => P x (w'.tableAt n) := by
  obtain ⟨x, hanswer, hpath, hx⟩ := h (w.turnTo n) (table_turnTo hn)
  have hanswer' : ((Action.within n a).run w).1 = .ok x := hanswer
  rw [← tableAt_within hn ha] at hx
  exact ⟨x, _, Prod.ext hanswer' rfl, upheld_within hn ha hpath, hx⟩

end Yields

/-- If the action, run in a workspace, is not refused, it has kept up handles and done nothing else,
and `P` holds of its answer and of the workspace then. -/
def Reveals (w : Workspace) (a : Action Surroundings α) (P : α → Workspace → Prop) : Prop :=
  ∀ x w', a.run w = (.ok x, w') → w.Upheld w' ∧ P x w'

namespace Reveals

/-- Just to answer reveals what holds of the answer already. -/
theorem pure {x : α} (h : P x w) : Reveals w (Pure.pure x) P := by
  rintro _ _ ⟨⟩
  exact ⟨.refl w, h⟩

/-- What the answer of an action reveals is what the next one may start from. If either is refused,
nothing is to be shown. -/
theorem bind {f : α → Action Surroundings β} {Q : β → Workspace → Prop} (h : Reveals w a P)
    (hf : ∀ x w', w.Upheld w' → P x w' → Reveals w' (f x) Q) : Reveals w (a >>= f) Q := by
  intro y w₂ hrun
  rw [run_bind] at hrun
  cases ha : a.run w with
  | mk answer w₁ =>
    rw [ha] at hrun
    cases answer with
    | error => cases hrun
    | ok x =>
      obtain ⟨hupheld, hx⟩ := h x w₁ ha
      obtain ⟨hupheld', hy⟩ := hf x w₁ hupheld hx y w₂ hrun
      exact ⟨hupheld.trans hupheld', hy⟩

/-- What an answer reveals may be weakened, and it may be used then that the workspace was
upheld. -/
theorem imp (h : Reveals w a P) (hP : ∀ x w', w.Upheld w' → P x w' → Q x w') : Reveals w a Q := by
  intro x w' hrun
  obtain ⟨hupheld, hx⟩ := h x w' hrun
  exact ⟨hupheld, hP x w' hupheld hx⟩

/-- What the answer of an inward action says about a table it says where it is run at that table of
a workspace. If it is not refused, its answer is that of the same action at the table itself, and
only this table has changed. -/
theorem within {P : α → Table → Prop} (hn : n < w.tables.length) (ha : Inward a)
    (h : Ends (w.tableAt n) a fun answer t => Path upkeep (w.tableAt n) t ∧ ∀ x, answer = .ok x → P x t) :
    Reveals w (within n a) fun x w' => P x (w'.tableAt n) := by
  intro x w' hrun
  obtain ⟨hpath, hanswer⟩ := h (w.turnTo n) (table_turnTo hn)
  have hx := hanswer x (congrArg Prod.fst hrun)
  obtain rfl : ((Action.within n a).run w).2 = w' := congrArg Prod.snd hrun
  rw [← tableAt_within hn ha] at hx
  exact ⟨upheld_within hn ha hpath, hx⟩

end Reveals

end Action

end SymbolTable
