import SymbolTable.Proofs.Action.Deletion
import SymbolTable.Proofs.Run

/-!
# Scopes in runs

The rows of a table make a forest, as long as its listeners do not act on it, nobody changes rows
behind its back and derived symbols stay where they are. Moves other than deletions keep the forest
step by step (`Table.Step.forest`). A deletion keeps it as a whole, and ends before the next move
begins, so no move meets a symbol that is being deleted (`Table.Standing`).
-/

namespace SymbolTable

open SymbolTable.Action
open Table (Path Step)

variable {σ : Type} {t t' : Table} {notify : Listener σ}

/-- A run without moves changes at most the outages. What a listener may do then is to change what
stands around, and neither rows nor handles. The induction is on the run. -/
theorem Runs.drifts {allowed : Bool → Table → Move → Prop} (hnone : ∀ t m, ¬ allowed true t m)
    {s s' : Situated σ} (h : Runs allowed true s s') : s.table.Drifts s'.table := by
  generalize hnested : true = nested at h
  induction h with
  | refl => exact .refl _
  | drift _ hdrifts ih => exact (ih hnested).trans hdrifts
  | move _ hallowed =>
    subst hnested
    exact absurd hallowed (hnone _ _)

/-! ## Moves that keep the forest -/

/-- A move that is not made by a listener, goes through the table and relocates no derived
symbol. -/
def Move.keepsForest (nested : Bool) (t : Table) : Move → Prop
  | .put _ | .take _ => False
  | .edit h (.relocate _ _) => nested = false ∧ (t.handle h).isDerived = false
  | _ => nested = false

/-- What such moves may do that are no deletions. -/
def Deed.keepsForest (d : Deed) : Prop :=
  d = .write ∨ d = .readdress ∨ d = .plan

/-- No move that keeps the forest is nested in another one: the listeners of such runs make none.
Without this, a listener could put something into a scope that is being deleted. -/
theorem Move.not_keepsForest (t : Table) (m : Move) : ¬ m.keepsForest true t := by
  cases m with
  | put | take => exact not_false
  | edit h e =>
    cases e with
    | relocate =>
      rintro ⟨hnested, -⟩
      cases hnested
    | _ => exact nofun
  | _ => exact nofun

/-- A move of this kind, short of a deletion, does at most deeds that write or move. Deletions are
followed on their own, since they prune the forest. -/
theorem Move.permitted_keepsForest {may : Deed → Prop} {m : Move} (hm : m.keepsForest false t)
    (hdelete : ∀ h, m ≠ .edit h .delete) (hwrite : may .write) (hreaddress : may .readdress) :
    m.Permitted may t := by
  have hthrough : m.goesThrough := by
    cases m with
    | put | take => exact hm
    | _ => trivial
  refine .of_goesThrough hthrough hwrite (fun h heq => absurd heq (hdelete h)) (fun _ _ _ _ => hreaddress) ?_
  rintro h oldBase newBase rfl hderived
  rw [hm.2] at hderived
  cases hderived

/-! ## Standing tables -/

/-- Until ids run out, the rows make a forest and no symbol is being deleted. -/
structure Table.Standing (t : Table) : Prop where
  sound : t.Sound
  exact : t.drawn < UInt64.size - 1 → t.Exact
  forest : t.drawn < UInt64.size - 1 → t.Forest
  idle : t.drawn < UInt64.size - 1 → ∀ k, (t.handle k).deleting = false

namespace Table.Standing

/-- A table that has just been opened is standing: there are no rows, so all of them stand in a
forest. No handle is marked either. -/
theorem of_isNew {rules : Rules} (h : t.IsNew rules) : t.Standing := by
  refine ⟨h.sound, fun _ => h.exact, fun _ => ?_, fun _ k => ?_⟩
  · intro r hr
    rw [h.rows_eq] at hr
    cases hr
  · rw [h.handle_eq]
    rfl

/-- Steps that take nothing out. The parts of standing are kept by the steps one by one, and the
forest as long as ids remain. -/
theorem of_path (h : t.Standing) (hpath : Path Deed.keepsForest t t') : t'.Standing := by
  have hlt : t'.drawn < UInt64.size - 1 → t.drawn < UInt64.size - 1 :=
    Nat.lt_of_le_of_lt (hpath.drawn_le h.sound)
  refine ⟨hpath.sound h.sound, ?_, ?_, ?_⟩
  · intro hlt'
    exact hpath.exact nofun nofun h.sound (fun _ => hlt') (h.exact (hlt hlt'))
  · intro hlt'
    exact hpath.forest nofun nofun nofun h.sound (h.exact (hlt hlt')) (fun _ => hlt')
      (h.forest (hlt hlt'))
  · intro hlt' k
    rw [hpath.deleting_eq nofun, h.idle (hlt hlt')]

/-- A deletion. All other deletions have ended when it begins, so the line is empty, and whatever is
refused, a forest is left. -/
theorem ends_delete (h : t.Standing) (hq : Quiet notify) (k : HandleId) :
    Ends t (delete notify k) fun _ t' => t'.Standing := by
  have hfollows : Ends t (delete notify k) fun _ t' => Path pruning t t' :=
    follows_delete (c := .steps pruning) (hq.heeds (Course.allows_steps (.inr rfl)))
      (Course.allows_steps (d := .remove) (.inl rfl)) k t h.sound
  by_cases hlt : t.drawn < UInt64.size - 1
  · refine (Action.ends_delete hq h.sound (h.exact hlt) (h.forest hlt) (h.idle hlt) k).imp
      fun _ t' hd => ?_
    have hpath := hd.pruned.path
    refine ⟨hpath.sound h.sound, fun _ => ?_, fun _ => hd.pruned.forest, fun _ i => ?_⟩
    · exact hpath.exact nofun nofun h.sound nofun (h.exact hlt)
    · refine Bool.eq_false_iff.2 ?_
      intro hi
      have hbefore := hd.pruned.calm i hi
      rw [h.idle hlt] at hbefore
      cases hbefore
  · refine hfollows.imp fun _ t' hpath => ?_
    have hge : ¬ t'.drawn < UInt64.size - 1 := fun hlt' =>
      hlt (Nat.lt_of_le_of_lt (hpath.drawn_le h.sound) hlt')
    exact ⟨hpath.sound h.sound, fun hlt' => absurd hlt' hge, fun hlt' => absurd hlt' hge,
      fun hlt' => absurd hlt' hge⟩

/-- Every move that may be made leaves the table standing. There are deletions, and the other moves,
which lead along steps that take nothing out. -/
theorem ends_move (h : t.Standing) (hq : Quiet notify) {m : Move} (hm : m.keepsForest false t) :
    Ends t (m.action notify) fun _ t' => t'.Standing := by
  by_cases hdelete : ∃ k, m = .edit k .delete
  · obtain ⟨k, rfl⟩ := hdelete
    have hmap {α β : Type} {a : Action σ α} {f : α → β} (ha : Ends t a fun _ t' => t'.Standing) :
        Ends t (f <$> a) fun _ t' => t'.Standing :=
      .map ha (fun _ _ ht => ht) fun _ _ ht => ht
    exact hmap (hmap (h.ends_delete hq k))
  · have hpermitted : m.Permitted Deed.keepsForest t :=
      Move.permitted_keepsForest hm (fun k hk => hdelete ⟨k, hk⟩) (.inl rfl) (.inr (.inl rfl))
    exact (Move.ends (hq.heeds (Course.allows_steps (.inr (.inr rfl)))) h.sound hpermitted).imp
      fun _ _ hpath => h.of_path hpath

end Table.Standing

/-! ## The forest in runs -/

variable {s : Situated σ}

/-- A table is standing after every such run. What goes on outside the table and each move keep it
standing, whoever listens. -/
theorem Runs.standing {s₀ : Situated σ} {rules : Rules} (hnew : s₀.table.IsNew rules)
    (hrun : Runs Move.keepsForest false s₀ s) : s.table.Standing := by
  refine Runs.preserves (fun t t' hdrifts h => ?_) (fun t m notify hm hnotify h => ?_) hrun
    (.of_isNew hnew)
  · exact h.of_path (hdrifts.path (.inr (.inr rfl)))
  · exact h.ends_move (fun e x => (hnotify e x).drifts Move.not_keepsForest) hm

/-- **Scopes make a forest.** Whatever symbols are created, edited and deleted in a table with the
usual rules that was opened empty, and whichever calls of the store fail on the way: every row lies
in a scope that accepts it, and from there the parents lead to the global scope and come by no row
twice. No listener acts on the table, rows are changed through it alone, derived symbols are not
relocated, and there are ids left. -/
theorem Runs.scopes_make_forest {s₀ : Situated σ} (hnew : s₀.table.IsNew .standard)
    (hrun : Runs Move.keepsForest false s₀ s) (hlt : s.table.drawn < UInt64.size - 1) :
    ∀ r ∈ s.table.rows, (∃ k, r.kind? = some k ∧ s.table.Accepts k r.parent) ∧
      ∃ rs, s.table.Leads r.parent rs ∧ ((r :: rs).map (·.id)).Nodup := by
  have hstanding := hrun.standing hnew
  intro r hr
  have hpath : Path (fun _ => True) s₀.table s.table :=
    hrun.path trivial (fun _ _ m _ => .of_forall (fun _ => trivial) m) hnew.sound
  have hlabel : s.table.Accepts .label .global := by
    show s.table.rules.acceptsParent .label none = true
    rw [hpath.sameFrame.rules, hnew.rules_eq]
    rfl
  obtain ⟨⟨k, hkind, hadmits⟩, rs, hleads⟩ := hstanding.forest hlt r hr
  have haccepted : ∃ k, r.kind? = some k ∧ s.table.Accepts k r.parent :=
    ⟨k, hkind, hadmits.accepts hlabel⟩
  exact ⟨haccepted, rs, hleads, (Table.Leads.step (Table.row?_id hstanding.sound.backend hr) hleads).nodup⟩

/-- A scope is put into another one, which is then moved into it, which is refused, and deleted,
which fails when nothing but its own row is left. -/
theorem Runs.scopes_make_forest_of_failed_delete :
    let outages : Store.Outages := .ofRules [⟨.remove, some 1, .io "disk full"⟩]
    let s₀ : Situated Unit := ⟨.ofStore default .standard ⟨.memory .empty, outages⟩ true, (), 0⟩
    let outer : Scope := .of ⟨1, by decide⟩
    let inner : Scope := .of ⟨2, by decide⟩
    let new (name : String) (scope : Scope) : Move :=
      .create ⟨name, .namespaceScope, .nowhere, scope, .userDefined, 0, 0, none⟩
    let go (s : Situated Unit) (m : Move) := ((m.action Listener.idle).run s).2
    let s := [new "outer" .global, new "inner" outer, .edit 0 (.setScope inner),
      .edit 0 .delete].foldl go s₀
    s₀.table.IsNew .standard ∧ Runs Move.keepsForest false s₀ s ∧ s.table.drawn < UInt64.size - 1 ∧
      ∀ r ∈ s.table.rows, (∃ k, r.kind? = some k ∧ s.table.Accepts k r.parent) ∧
        ∃ rs, s.table.Leads r.parent rs ∧ ((r :: rs).map (·.id)).Nodup := by
  intro outages s₀ outer inner new go s
  have hnew : s₀.table.IsNew .standard := .memory _ _ _
  have hrun : Runs Move.keepsForest false s₀ s :=
    .move (.move (.move (.move .refl rfl .idle) rfl .idle) rfl .idle) rfl .idle
  have hlt : s.table.drawn < UInt64.size - 1 := by decide
  exact ⟨hnew, hrun, hlt, Runs.scopes_make_forest hnew hrun hlt⟩

end SymbolTable
