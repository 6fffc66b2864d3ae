import SymbolTable.Proofs.Action.Nesting
import SymbolTable.Proofs.Action.Walking
import SymbolTable.Proofs.Announcements

/-!
# Symbols named in full

A symbol is named in full by the rows that lead up from its scope to the global one, if they are no
more than a walk may pass (`Table.pathAlong`). Creations and moves between scopes look at the scope
alone, and not at how deep it lies, nor at how deep what they move goes. As long as they put symbols
only where there is room (`Move.nestsWithin`), the table stays shallow (`Runs.shallow`) and all its
symbols can be named in full. Otherwise a chain of scopes can grow one by one beyond what a walk may
pass (`Runs.symbols_are_not_named_in_full`).
-/

namespace SymbolTable

open SymbolTable.Action
open Table (Path)

variable {σ : Type} {t t' : Table} {s₀ s : Situated σ} {notify : Listener σ} {h : HandleId} {scope : Scope}
  {rs : List Row}

/-! ## Walks up the scopes -/

namespace Action

variable (hb : t.store.backend.Sound) (hworks : t.store.Works)

include hb hworks

/-- A walk answers with the rows on the way to the global scope if it may pass so many, and is
refused otherwise. The walk may pass as many rows as there may be scopes around one another. It
makes no difference how it is refused otherwise, as the table is not changed. -/
theorem ends_ancestors_of_leads (hleads : t.Leads scope rs) :
    Ends t (ancestors scope : Action σ _) fun answer t' =>
      answer = (if rs.length ≤ t.settings.maxDepth then .ok rs else .error (.circular (.endlessChain scope))) ∧
        t' = t := by
  refine (ends_ancestors hb hworks scope).imp ?_
  rintro answer t' ⟨rfl, hdecides⟩
  refine ⟨?_, rfl⟩
  split
  · rename_i hle
    exact (hdecides.ok_iff rs).2 (.of_leads hleads hle)
  · rename_i hgt
    refine hdecides.eq_error fun rs' hsurveys => ?_
    obtain rfl := hsurveys.climbs.unique hleads.climbs
    exact hgt hsurveys.length_le

/-- The names of several rows are told one after the other, each as it is shown. The induction is on
the rows. Nothing is changed in between, so each name is that of the same table. -/
theorem answers_mapM_shown (rs : List Row) :
    Answers t (rs.mapM displayName : Action σ _) fun names t' => names = rs.map t.shown ∧ t' = t := by
  induction rs with
  | nil => exact .pure ⟨rfl, rfl⟩
  | cons r rs ih =>
    rw [List.mapM_cons]
    refine (answers_shown hb hworks r).bind ?_
    rintro _ _ ⟨rfl, rfl⟩
    refine ih.bind ?_
    rintro _ _ ⟨rfl, rfl⟩
    exact .pure ⟨rfl, rfl⟩

end Action

/-- The path of the symbol of a handle if these rows lead up from its scope: their names, outermost
first, and its own, unless they are more than a walk may pass. -/
def Table.pathAlong (t : Table) (h : HandleId) (rs : List Row) : Except Fault (List String) :=
  if rs.length ≤ t.settings.maxDepth then .ok (rs.reverse.map t.shown ++ [t.shownFor (t.handle h)])
  else .error (.circular (.endlessChain (t.handle h).parent))

namespace Action

/-- The symbol of a handle answers with its path. The names of the scopes around it come first,
outermost first, and its own last. If the way is too long, there is no answer. -/
theorem ends_pathOf (hb : t.store.backend.Sound) (hworks : t.store.Works)
    (hleads : t.Leads (t.handle h).parent rs) :
    Ends t (pathOf h : Action σ _) fun answer _ => answer = t.pathAlong h rs := by
  refine .look_bind ?_
  unfold Table.pathAlong
  have hancestors := ends_ancestors_of_leads (σ := σ) hb hworks hleads
  by_cases hle : rs.length ≤ t.settings.maxDepth
  · rw [if_pos hle] at hancestors ⊢
    have hpath : Answers t (scopePath (t.handle h).parent : Action σ _) fun names t' =>
        names = rs.reverse.map t.shown ∧ t' = t := by
      refine Ends.bind hancestors ?_ fun _ _ hanswer => nomatch hanswer.1
      rintro _ _ ⟨⟨⟩, rfl⟩
      exact answers_mapM_shown hb hworks rs.reverse
    refine hpath.ends_bind ?_
    rintro _ _ ⟨rfl, rfl⟩
    refine (answers_nameOf hb hworks h).ends_bind ?_
    rintro _ _ ⟨rfl, rfl⟩
    exact .pure rfl
  · rw [if_neg hle] at hancestors ⊢
    have hpath : Ends t (scopePath (t.handle h).parent : Action σ _) fun answer _ =>
        answer = .error (.circular (.endlessChain (t.handle h).parent)) := by
      refine .bind hancestors (fun _ _ hanswer => nomatch hanswer.1) fun _ _ hanswer => ?_
      rw [Except.error.inj hanswer.1]
    refine .bind hpath (fun _ _ hanswer => nomatch hanswer) fun _ _ hanswer => ?_
    rw [Except.error.inj hanswer]

end Action

/-- The symbol of a live handle answers with its path once the handle is current. The refresh
changes neither its row nor those around it, so the way may be looked up beforehand. -/
theorem Table.Answering.ends_path (ha : t.Answering) (hlive : (t.handle h).deleted = false)
    (hleads : t.Leads (t.handle h).parent rs) :
    Ends t (current h (pathOf h) : Action σ _) fun answer _ => answer = t.pathAlong h rs := by
  refine ends_current_of_live ha hlive fun t₁ hr => ?_
  have ha₁ := ha.of_upkeep hr.path
  have hframe := hr.path.sameFrame
  have hrows : t₁.rows = t.rows := hr.path.rows_eq_of_upkeep
  have hparent : (t₁.handle h).parent = (t.handle h).parent := by
    rw [Handle.parent, Handle.parent, hr.row_eq_of_exact ha.exact]
  have hleads₁ : t₁.Leads (t₁.handle h).parent rs := hparent ▸ hleads.congr hrows
  refine (ends_pathOf ha₁.sound.backend ha₁.serving.works hleads₁).imp fun answer _ hanswer => ?_
  rw [hanswer, Table.pathAlong, Table.pathAlong, hparent, hr.shownFor_eq ha.exact, hframe.settings,
    Table.shown_eq hframe hrows]

/-! ## Rooms in runs -/

/-- A move that keeps the forest and puts a symbol only where there is room for it. -/
def Move.nestsWithin (nested : Bool) (t : Table) (m : Move) : Prop :=
  m.keepsForest nested t ∧ ∀ id? scope, m.seat? t = some (id?, scope) → t.Fits id? scope

/-- A move that puts a symbol into a scope nests within bounds if there is room for it and for what
lies in it. -/
theorem Move.nestsWithin_of_seat {nested : Bool} {m : Move} {id? : Option SymbolId} (hm : m.keepsForest nested t)
    (hseat : m.seat? t = some (id?, scope)) (hfits : t.Fits id? scope) : m.nestsWithin nested t := by
  refine ⟨hm, fun i? x hx => ?_⟩
  obtain ⟨rfl, rfl⟩ := Prod.mk.inj (Option.some.inj (hseat.symm.trans hx))
  exact hfits

/-- No move that nests within bounds is nested in another move: the listeners of such runs make
none. -/
theorem Move.not_nestsWithin (t : Table) (m : Move) : ¬ m.nestsWithin true t :=
  fun hm => m.not_keepsForest t hm.1

/-- Until ids run out, a table stays shallow by such moves. A move that puts a symbol somewhere has
room for it by the condition, and the others let no way get longer. -/
theorem Table.Standing.ends_shallow (ht : t.Standing) (hq : Quiet notify) {m : Move}
    (hm : m.nestsWithin false t) (hshallow : t.drawn < UInt64.size - 1 → t.Shallow) :
    Ends t (m.action notify) fun _ t' => t'.Standing ∧ (t'.drawn < UInt64.size - 1 → t'.Shallow) := by
  have hpath : Ends t (m.action notify) fun _ t' => Path (fun _ => True) t t' :=
    Move.ends (hq.heeds (Course.allows_steps trivial)) ht.sound (.of_forall (fun _ => trivial) m)
  have hends := (ht.ends_move hq hm.1).and hpath
  cases hseat : m.seat? t with
  | none =>
    refine (hends.and (Move.ends_staying hq ht.sound hm.1 hseat)).imp fun _ t' hafter => ?_
    obtain ⟨⟨ht', hpath⟩, hstaying⟩ := hafter
    refine ⟨ht', fun hlt' => ?_⟩
    have hlt := Nat.lt_of_le_of_lt (hpath.drawn_le ht.sound) hlt'
    have hstays := (hstaying.2 ht.sound hlt' (ht.exact hlt) trivial).2.2
    exact (hshallow hlt).of_stays (ht.forest hlt) ht'.sound hstays hpath.sameFrame.settings
  | some seat =>
    obtain ⟨id?, scope⟩ := seat
    refine (hends.and (Move.ends_seats hq ht.sound hseat)).imp fun _ t' hafter => ?_
    obtain ⟨⟨ht', hpath⟩, hseats⟩ := hafter
    refine ⟨ht', fun hlt' => ?_⟩
    have hlt := Nat.lt_of_le_of_lt (hpath.drawn_le ht.sound) hlt'
    exact (hshallow hlt).of_seats (ht.forest hlt) ht.sound (ht.exact hlt) hlt ht'.sound hseats
      hpath.sameFrame.settings (hm.2 id? scope hseat)

/-- Where symbols are put only where there is room, tables stay shallow. The induction is on the
run. At the beginning there are no rows and no ways. -/
theorem Runs.shallow {rules : Rules} (hnew : s₀.table.IsNew rules) (hrun : Runs Move.nestsWithin false s₀ s)
    (hlt : s.table.drawn < UInt64.size - 1) : s.table.Shallow := by
  have hstart : s₀.table.Shallow := by
    intro r hr
    rw [hnew.rows_eq] at hr
    cases hr
  refine (Runs.preserves (I := fun t => t.Standing ∧ (t.drawn < UInt64.size - 1 → t.Shallow)) ?_ ?_ hrun
    ⟨.of_isNew hnew, fun _ => hstart⟩).2 hlt
  · rintro t t' hdrifts ⟨ht, hshallow⟩
    have hpath : Path (· = .plan) t t' := hdrifts.path rfl
    refine ⟨ht.of_path (hpath.mono fun _ hd => .inr (.inr hd)), fun hlt' => ?_⟩
    have hlt := Nat.lt_of_le_of_lt (hpath.drawn_le ht.sound) hlt'
    exact (hshallow hlt).of_stays (ht.forest hlt) (hpath.sound ht.sound) (.of_rows_eq hpath.rows_eq)
      hpath.sameFrame.settings
  · rintro t m notify hm hnotify ⟨ht, hshallow⟩
    exact ht.ends_shallow (fun e x => (hnotify e x).drifts Move.not_nestsWithin) hm hshallow

/-- **Symbols that have room can be named in full.** Whatever was created, edited and deleted
through a table since it was opened empty, a symbol that is there answers with its path and its
qualified name, the names that the rows on the way from the global scope show and its own, exactly
if the rows on the way are no more than a walk may pass. They are not if creations, renames and
moves between scopes put symbols only where there is room for them and for all that lies in them.
The store works when the symbol is asked, no listener acts on the table, rows are changed through it
alone, derived symbols are not relocated, and there are ids left. -/
theorem Runs.symbols_are_named_in_full {rules : Rules} (hnew : s₀.table.IsNew rules)
    (hrun : Runs Move.keepsForest false s₀ s) (hlt : s.table.drawn < UInt64.size - 1)
    (hworks : s.table.store.Works) (hvalid : ((isValid h).run s).1 = .ok true) :
    ∃ rs, s.table.Leads (s.table.handle h).parent rs ∧
      ((current h (pathOf h)).run s).1 = s.table.pathAlong h rs ∧
      ((qualifiedName h false).run s).1 = Name.qualified <$> s.table.pathAlong h rs ∧
      (Runs Move.nestsWithin false s₀ s → rs.length ≤ s.table.settings.maxDepth) := by
  have hstanding := hrun.standing hnew
  have hs := hstanding.sound
  have he := hstanding.exact hlt
  have ha : s.table.Answering := ⟨hs, he, hworks, hrun.opened hnew⟩
  have hlive := ends_isValid hs h s rfl hvalid
  have hpath {rs : List Row} (hleads : s.table.Leads (s.table.handle h).parent rs) :
      ((current h (pathOf h)).run s).1 = s.table.pathAlong h rs ∧
        ((qualifiedName h false).run s).1 = Name.qualified <$> s.table.pathAlong h rs := by
    refine ⟨ha.ends_path hlive hleads s rfl, ?_⟩
    refine Ends.map (Q := fun answer _ => answer = Name.qualified <$> s.table.pathAlong h rs)
      (ha.ends_path hlive hleads) (fun names _ hanswer => ?_) (fun fault _ hanswer => ?_) s rfl
    · rw [← hanswer]
      rfl
    · rw [← hanswer]
      rfl
  cases hrow : (s.table.handle h).row with
  | none =>
    have hleads : s.table.Leads (s.table.handle h).parent [] := by
      rw [Handle.parent_of_rowless hrow]
      exact .global
    exact ⟨[], hleads, (hpath hleads).1, (hpath hleads).2, fun _ => Nat.zero_le _⟩
  | some r =>
    have hr := Table.mem_of_row? ((he.mirrors h).row r hrow)
    obtain ⟨rs, hleads⟩ := (hstanding.forest hlt r hr).rooted
    have hleads' : s.table.Leads (s.table.handle h).parent rs := Handle.parent_of_row hrow ▸ hleads
    exact ⟨rs, hleads', (hpath hleads').1, (hpath hleads').2, fun hrun' => hrun'.shallow hnew hlt r hr rs hleads⟩

/-- Where two rows may be passed, a scope with a label in it is moved into another scope, from where
one row is passed. There is just room for it. -/
theorem Runs.symbols_are_named_in_full_of_moved :
    let settings : Settings := { (default : Settings) with maxDepth := 2 }
    let s₀ : Situated Unit := ⟨.empty settings .standard, (), 0⟩
    let outer : SymbolId := ⟨1, by decide⟩
    let inner : SymbolId := ⟨2, by decide⟩
    let draft (name : String) : Draft := ⟨name, .namespaceScope, .nowhere, .global, .userDefined, 0, 0, none⟩
    let label : Move := .create ⟨"start", .label, .ram 16, .of inner, .userDefined, 0, 0, none⟩
    let go (s : Situated Unit) (m : Move) := ((m.action Listener.recorder).run s).2
    let s₁ := go s₀ (.create (draft "outer"))
    let s₂ := go s₁ (.create (draft "inner"))
    let s₃ := go s₂ label
    let s := go s₃ (.edit 1 (.setScope (.of outer)))
    s₀.table.IsNew .standard ∧ Runs Move.keepsForest false s₀ s ∧ Runs Move.nestsWithin false s₀ s ∧
      s.table.drawn < UInt64.size - 1 ∧ s.table.store.Works ∧ ((isValid 2).run s).1 = .ok true ∧
      ((current 2 (pathOf 2)).run s).1 = .ok ["outer", "inner", "start"] ∧
      ∃ rs, s.table.Leads (s.table.handle 2).parent rs ∧
        ((current 2 (pathOf 2)).run s).1 = s.table.pathAlong 2 rs ∧
        ((qualifiedName 2 false).run s).1 = Name.qualified <$> s.table.pathAlong 2 rs ∧
        rs.length ≤ s.table.settings.maxDepth := by
  intro settings s₀ outer inner draft label go s₁ s₂ s₃ s
  have hnew : s₀.table.IsNew .standard := .memory _ _ _
  have hglobal (t : Table) : t.Fits none .global := .of_leads .global (Nat.zero_le _) nofun
  have hlabel : s₂.table.Fits none (.of inner) := by
    have hinner : s₂.table.row? inner = some ((draft "inner").row inner) := by decide +kernel
    exact .of_leads (.step hinner .global) (by decide +kernel) nofun
  -- the label lies in the scope that is moved, and this scope lay in no other
  have hmoved : s₃.table.Fits (some inner) (.of outer) := by
    have houter : s₃.table.row? outer = some ((draft "outer").row outer) := by decide +kernel
    have hinner : s₃.table.row? inner = some ((draft "inner").row inner) := by decide +kernel
    have hparents : ∀ r ∈ s₃.table.rows, r.parent = .global ∨ r.parent = .of inner := by decide +kernel
    refine .of_leads (.step houter .global) (by decide +kernel) ?_
    rintro _ ⟨⟩ r hr below hascends
    rcases hparents r hr with hparent | hparent
    · rw [hparent] at hascends
      cases hascends
    · rw [hparent] at hascends
      cases hascends with
      | here => decide +kernel
      | step hget hrest =>
        cases hinner.symm.trans hget
        cases hrest
  have hseat : (Move.edit 1 (.setScope (.of outer))).seat? s₃.table = some (some inner, .of outer) := by
    decide +kernel
  have hlast : (Move.edit 1 (.setScope (.of outer))).nestsWithin false s₃.table :=
    Move.nestsWithin_of_seat rfl hseat hmoved
  have hkeeps : Chronicle Move.keepsForest false s₀ s :=
    .move (.move (.move (.move .refl rfl .recorder) rfl .recorder) rfl .recorder) rfl .recorder
  have hnests₂ : Chronicle Move.nestsWithin false s₀ s₂ :=
    .move (.move .refl (Move.nestsWithin_of_seat rfl rfl (hglobal _)) .recorder)
      (Move.nestsWithin_of_seat rfl rfl (hglobal _)) .recorder
  have hnests₃ : Chronicle Move.nestsWithin false s₀ s₃ :=
    .move hnests₂ (Move.nestsWithin_of_seat rfl rfl hlabel) .recorder
  have hnests : Chronicle Move.nestsWithin false s₀ s := .move hnests₃ hlast .recorder
  have hlt : s.table.drawn < UInt64.size - 1 := by decide
  have hworks := hkeeps.works hnew.sound fun _ _ _ => rfl
  have hvalid : ((isValid 2).run s).1 = .ok true := by decide +kernel
  have hpath : ((current 2 (pathOf 2)).run s).1 = .ok ["outer", "inner", "start"] := by decide +kernel
  obtain ⟨rs, hleads, hanswer, hname, hle⟩ := Runs.symbols_are_named_in_full hnew hkeeps.runs hlt hworks hvalid
  exact ⟨hnew, hkeeps.runs, hnests.runs, hlt, hworks, hvalid, hpath, rs, hleads, hanswer, hname, hle hnests.runs⟩

/-- Where one row may be passed, a scope is created in another one and a label in the inner one,
which cannot be named in full. -/
theorem Runs.symbols_are_not_named_in_full :
    let settings : Settings := { (default : Settings) with maxDepth := 1 }
    let s₀ : Situated Unit := ⟨.empty settings .standard, (), 0⟩
    let outer : SymbolId := ⟨1, by decide⟩
    let inner : SymbolId := ⟨2, by decide⟩
    let scope (name : String) (parent : Scope) : Move :=
      .create ⟨name, .namespaceScope, .nowhere, parent, .userDefined, 0, 0, none⟩
    let label : Move := .create ⟨"start", .label, .ram 16, .of inner, .userDefined, 0, 0, none⟩
    let go (s : Situated Unit) (m : Move) := ((m.action Listener.recorder).run s).2
    let s := [scope "outer" .global, scope "inner" (.of outer), label].foldl go s₀
    s₀.table.IsNew .standard ∧ Runs Move.keepsForest false s₀ s ∧ s.table.store.Works ∧
      s.table.rows.length = 3 ∧ ((isValid 2).run s).1 = .ok true ∧
      ((current 2 (pathOf 2)).run s).1 = .error (.circular (.endlessChain (.of inner))) ∧
      ((qualifiedName 2 false).run s).1 = .error (.circular (.endlessChain (.of inner))) := by
  intro settings s₀ outer inner scope label go s
  have hnew : s₀.table.IsNew .standard := .memory _ _ _
  have hchronicle : Chronicle Move.keepsForest false s₀ s :=
    .move (.move (.move .refl rfl .recorder) rfl .recorder) rfl .recorder
  have hworks := hchronicle.works hnew.sound fun _ _ _ => rfl
  exact ⟨hnew, hchronicle.runs, hworks, by decide +kernel, by decide +kernel, by decide +kernel, by decide +kernel⟩

end SymbolTable
