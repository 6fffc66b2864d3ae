import SymbolTable.Proofs.Announcements
import SymbolTable.Proofs.DerivedNames
import SymbolTable.Proofs.Renames

/-!
# What a symbol keeps when it changes its scope

To move a symbol into another scope, it is renamed to the name that it shows, with the provenance
that it has. Under the usual rules such a rename settles for just this provenance
(`Table.Proper.settles_shown`): a chosen name has passed the check, so it is not the one derived
from the address, and a symbol without a name does not get one. So nothing but the scope changes in
the row of the symbol, and nothing at all in the rows from which a name is borrowed. A derived
symbol gets a row, of which it tells the same as before.

What a symbol tells of itself besides its scope is its `Portrait`, and a move between scopes keeps
it (`Runs.scopes_change_alone`). It does not where walks may pass no row, since no symbol shows a
name of its own then (`Runs.scopes_do_not_change_alone`).
-/

namespace SymbolTable

open SymbolTable.Action
open Table (Path upkeep)

variable {σ : Type} {t t₁ t' : Table} {notify : Listener σ} {h : HandleId} {scope : Scope} {plan : Rename} {r : Row}

/-! ## Chosen names -/

/-- Under the usual rules, the name that is derived from an address cannot be chosen. A name in the
form of a derived one does not pass the check. So a symbol that shows a chosen name is not taken for
one that goes without. -/
theorem Capabilities.settle_standard_of_check {k : Kind} {name : String} {limit : Nat} {a : Address} {p : Provenance}
    (hcheck : Name.check name limit = .ok ()) : (standard k).settle name a p = p := by
  obtain ⟨hname, -, -, hform⟩ := Name.check_eq_ok_iff.1 hcheck
  have hstem : ∀ stem, (standard k).stem? = some stem → stem ∈ Name.stems := by
    cases k <;> simp [standard, codeLike, scopeLike, variableLike, Name.stems]
  have hother : (standard k).stem?.any (name = Name.derived · a) = false := by
    cases hk : (standard k).stem? with
    | none => rfl
    | some stem =>
      refine decide_eq_false ?_
      rintro rfl
      cases (Name.isDerivedForm_derived (hstem stem hk) a).symm.trans hform
  have hnonempty : name.toList.isEmpty = false := by
    simpa using hname
  unfold settle
  rw [hnonempty, hother]
  simp

/-! ## Portraits -/

/-- What a symbol tells of itself besides the scope in which it lies. -/
structure Portrait where
  name : String
  provenance : Provenance
  address : Address
  data1 : Int64
  data2 : Int32
  data3 : Option String

/-- The portrait of the symbol of a handle. -/
def Table.portrait (t : Table) (h : HandleId) : Portrait where
  name := t.shownFor (t.handle h)
  provenance := (t.handle h).provenance
  address := (t.handle h).address
  data1 := (t.handle h).data1
  data2 := (t.handle h).data2
  data3 := (t.handle h).data3

/-- Asked for what is in a portrait, the symbol of a handle answers with it. -/
structure Situated.Portrays (s : Situated σ) (h : HandleId) (x : Portrait) : Prop where
  name : ((currentName h).run s).1 = .ok x.name
  provenance : ((telling h (·.provenance)).run s).1 = .ok x.provenance
  address : ((telling h (·.address)).run s).1 = .ok x.address
  data1 : ((telling h (·.data1)).run s).1 = .ok x.data1
  data2 : ((telling h (·.data2)).run s).1 = .ok x.data2
  data3 : ((telling h (·.data3)).run s).1 = .ok x.data3

/-- A symbol answers with its portrait once its handle is current. So the portrait may be read off
the table right after a refresh. -/
theorem Situated.portrays_of_refreshed {s : Situated σ} (hs : s.table.Sound) (hserving : s.table.Serving)
    (hr : s.table.Refreshed h (.ok ()) t₁) : s.Portrays h (t₁.portrait h) where
  name := answer_currentName_of_refreshed hs hserving hr
  provenance := answer_telling_of_refreshed hs hserving hr (·.provenance)
  address := answer_telling_of_refreshed hs hserving hr (·.address)
  data1 := answer_telling_of_refreshed hs hserving hr (·.data1)
  data2 := answer_telling_of_refreshed hs hserving hr (·.data2)
  data3 := answer_telling_of_refreshed hs hserving hr (·.data3)

/-- A symbol has one portrait. Each part of it is the answer to a query, and a query has one
answer. -/
theorem Situated.Portrays.unique {s : Situated σ} {x y : Portrait} (hx : s.Portrays h x) (hy : s.Portrays h y) :
    x = y := by
  obtain ⟨name, provenance, address, data1, data2, data3⟩ := x
  cases Except.ok.inj (hx.name.symm.trans hy.name)
  cases Except.ok.inj (hx.provenance.symm.trans hy.provenance)
  cases Except.ok.inj (hx.address.symm.trans hy.address)
  cases Except.ok.inj (hx.data1.symm.trans hy.data1)
  cases Except.ok.inj (hx.data2.symm.trans hy.data2)
  cases Except.ok.inj (hx.data3.symm.trans hy.data3)
  rfl

namespace Table

/-- What is seen of a stored symbol, besides its scope, is what its row says. The address is that of
the row, since handles are in order. -/
theorem portrait_of_row (hs : t.Sound) (hrow : (t.handle h).row = some r) :
    t.portrait h = ⟨t.shown r, r.provenance, r.address, r.data1, r.data2, r.data3⟩ := by
  have haddress : (t.handle h).address = r.address := (hs.inOrder h).address r hrow
  simp only [portrait, shownFor, Handle.provenance, Handle.data1, Handle.data2, Handle.data3, hrow, haddress]
  rfl

/-- What is seen of a derived symbol is what its address and its kind say. It has no data and counts
as named by default. -/
theorem portrait_of_rowless (hrow : (t.handle h).row = none) :
    t.portrait h = ⟨t.rules.derivedName (t.handle h).kind (t.handle h).address 0, .default, (t.handle h).address,
      0, 0, none⟩ := by
  simp only [portrait, shownFor, Handle.provenance, Handle.data1, Handle.data2, Handle.data3, hrow]
  rfl

/-- An unnamed row that borrows no name shows the one that follows from its kind. This is so at
depth zero, too. -/
theorem shown_of_unlent (hunnamed : r.provenance = .default) (hlender : t.rules.lender? r = none) :
    t.shown r = t.derivedName r := by
  rw [shown]
  cases t.settings.maxDepth with
  | zero => rfl
  | succ depth => simp [shownWithin, hunnamed, hlender]

/-- While handles are kept up, nothing changes about a symbol whose handle is ready. -/
theorem IsReady.portrait_eq (hready : t.IsReady h) (hpath : Path upkeep t t') : t'.portrait h = t.portrait h := by
  have hrows : t'.rows = t.rows := hpath.rows_eq_of_upkeep
  simp only [portrait, hready.handle_eq hpath, shownFor_eq hpath.sameFrame hrows]

end Table

/-! ## Moves between scopes -/

/-- Under the usual rules, the name that a symbol shows is settled for with the provenance that the
symbol has. It is either a name that was checked, or that of a symbol without one, whose name is
derived or borrowed. In the second case nothing is settled for but to go without. -/
theorem Table.Everywhere.settles_shown (he : t.Everywhere t.Proper) (hrules : t.rules = .standard)
    (hdepth : t.settings.maxDepth ≠ 0) (h : HandleId) :
    t.settles (t.handle h) (t.shownFor (t.handle h)) (t.handle h).provenance = (t.handle h).provenance := by
  rw [settles, hrules]
  show (Capabilities.standard _).settle _ _ _ = _
  by_cases hdefault : (t.handle h).provenance = .default
  · simp [Capabilities.settle, hdefault]
  · obtain ⟨r, hrow⟩ : ∃ r, (t.handle h).row = some r := by
      refine Option.ne_none_iff_exists'.1 fun hnone => hdefault ?_
      rw [Handle.provenance, hnone]
      rfl
    have hprovenance : (t.handle h).provenance = r.provenance := by
      rw [Handle.provenance, hrow]
      rfl
    have hshown : t.shownFor (t.handle h) = r.name := by
      rw [shownFor_of_row hrow, shown_of_named hdepth (hprovenance ▸ hdefault)]
    rw [hshown]
    exact Capabilities.settle_standard_of_check ((he.copies h r hrow).named (hprovenance ▸ hdefault))

namespace Action

section
variable (ht : t.Sound) (hrules : t.rules = .standard) (hready : t.IsReady h)
  (hnear : ∀ e (x : Situated σ), x.table.Near (notify e x).table)

include ht hrules hready hnear

/-- A stored symbol keeps its portrait if it is not planned that it gets another name. The row may
get another scope, and it keeps its name, its provenance, its address and its data, and the link by
which it borrows. -/
theorem ends_carryOut_portrait (hrow : (t.handle h).row = some r) (hplan : Rename.Changes plan t (t.handle h))
    (hstays : plan.renames = false) (hprovenance : plan.provenance = (t.handle h).provenance) :
    Ends t (carryOut notify h plan) fun answer t' => answer = .ok () → t'.portrait h = t.portrait h := by
  refine (ends_carryOut_writes ht hnear).imp fun answer t' hwrites hok => ?_
  obtain ⟨t₁, r₁, b, hrel, hrow₁, hputs, htended, -⟩ := hwrites hok
  have hpath := Course.path_of_upkept hrel
  have ht₁ := hrel.sound ht
  have hlive₁ := (hready.of_upkeep hpath).live
  have hsame : r₁ = r := by
    rw [hready.handle_eq hpath] at hrow₁
    exact Option.some.inj (hrow₁.symm.trans hrow)
  subst hsame
  have hwritten : (t₁.written h (plan.apply r₁) b).Sound := ht₁.written hrow₁ rfl rfl hputs
  have hnew : ((t₁.written h (plan.apply r₁) b).handle h).row = some (plan.apply r₁) := by
    rw [Table.handle_written hlive₁]
    rfl
  have hothers : ∀ id, id ≠ r₁.id → (t₁.written h (plan.apply r₁) b).row? id = t.row? id := by
    intro id hne
    have hrows : t₁.rows = t.rows := hpath.rows_eq_of_upkeep
    rw [← Table.row?_congr hrows]
    exact (Table.row?_puts ht₁.backend hputs id).trans (if_neg hne)
  have hframe : t.SameFrame (t₁.written h (plan.apply r₁) b) := hpath.sameFrame.trans ⟨rfl, rfl, rfl⟩
  have hlends : t.rules.LendsByLink := hrules ▸ Rules.lendsByLink_ofCapabilities _
  have hshown : (t₁.written h (plan.apply r₁) b).shown (plan.apply r₁) = t.shown r₁ :=
    hplan.shown_apply hrow hlends hstays hframe hothers
  have hkept : (plan.apply r₁).provenance = r₁.provenance := by
    rw [provenance_apply, hprovenance, Handle.provenance, hrow]
    rfl
  rw [(Table.isReady_written hlive₁).portrait_eq htended, Table.portrait_of_row hwritten hnew,
    Table.portrait_of_row ht hrow, hshown, hkept]
  rfl

/-- A derived symbol keeps its portrait if it is planned to store it without a name. The row comes
without a name, so it is shown under the derived one, as before. Its data are those of a fresh row,
which a derived symbol shows as well. -/
theorem ends_promote_portrait (hrow : (t.handle h).row = none) (hplan : Planned t (t.handle h) plan)
    (hunnamed : plan.provenance = .default) :
    Ends t (promote notify h plan) fun answer t' => answer = .ok () → t'.portrait h = t.portrait h := by
  refine (ends_promote_stores ht hnear hready hrow hplan).imp fun answer t' hstores hok => ?_
  obtain ⟨id, b, hputs, hsound, htended, -⟩ := hstores hok
  generalize hfresh : Row.fresh id (t.handle h).kind (t.handle h).address plan.name plan.scope
    plan.provenance = row at hputs hsound htended
  have hnew : (((t.withBackend b).embody h row).handle h).row = some row := by
    rw [Table.handle_embodied hready.live]
    rfl
  have hprovenance : row.provenance = .default := by
    rw [← hfresh, ← hunnamed]
    exact Row.ofBits_rank_and _
  have hkind : row.kind? = some (t.handle h).kind := by
    rw [← hfresh]
    exact Kind.ofTag?_eq_some_iff.2 rfl
  -- a label borrows its name from nobody
  have hlabel : (t.handle h).kind = .label := ((ht.inOrder h).derived hready.live hrow).2
  have hlender : t.rules.lender? row = none := by
    rw [hrules]
    show Rules.lenderOf row = none
    simp [Rules.lenderOf, hkind, hlabel]
  have hshown : ((t.withBackend b).embody h row).shown row =
      t.rules.derivedName (t.handle h).kind (t.handle h).address 0 := by
    refine (Table.shown_of_unlent (t := (t.withBackend b).embody h row) hprovenance hlender).trans ?_
    rw [Table.derivedName, hkind]
    subst hfresh
    rfl
  rw [(Table.isReady_embodied hready.live).portrait_eq htended, Table.portrait_of_row hsound hnew,
    Table.portrait_of_rowless hrow, hshown, hprovenance]
  subst hfresh
  rfl

/-- A symbol that is renamed to what it shows, with the provenance that it has, keeps its portrait.
What a move between scopes does is a rename of this kind. If nothing is planned, it is the handle
that was refreshed, and otherwise it is one of the two lemmas before this. -/
theorem ends_rename_portrait (hserving : t.Serving) (he : t.Everywhere t.Proper)
    (hdepth : t.settings.maxDepth ≠ 0) (scope : Scope) :
    Ends t (rename notify h (t.shownFor (t.handle h)) scope (t.handle h).provenance) fun answer t' =>
      answer = .ok () → t'.portrait h = t.portrait h := by
  have hsettles := he.settles_shown hrules hdepth h
  refine ends_current_of_refreshed ht hserving (.ready hready) ?_
  refine Tells.ends_bind (((tells_planRename ht h _ scope _).and (tells_planRename_changes ht hserving.works h _ scope
    _)).and (tells_planRename_intends ht hserving.works h _ scope _)) (fun plan? hplan => ?_) fun _ => nofun
  obtain ⟨⟨hplanned, hchanges⟩, -, -, hintends⟩ := hplan
  cases plan? with
  | none => exact .pure fun _ => rfl
  | some plan =>
    have hprovenance : plan.provenance = (t.handle h).provenance := (hintends plan rfl).provenance_eq.trans hsettles
    have hstays : plan.renames = false := by
      rw [← Bool.not_eq_true]
      intro hrenames
      by_cases hdefault : plan.provenance = .default
      · exact ((hchanges plan rfl).unnamed hdefault).1 hrenames (hprovenance ▸ hdefault)
      · refine ((hchanges plan rfl).named hdefault).1 hrenames ?_
        rw [(hchanges plan rfl).oldName, (hintends plan rfl).named hdefault]
    refine .look_bind ?_
    cases hrow : (t.handle h).row with
    | none =>
      have hunnamed : plan.provenance = .default := by
        rw [hprovenance, Handle.provenance, hrow]
        rfl
      rw [Handle.isDerived_iff.2 ⟨hrow, hready.live⟩, if_pos rfl]
      exact ends_promote_portrait ht hrules hready hnear hrow (hplanned plan rfl).1 hunnamed
    | some r =>
      rw [Handle.isDerived_of_row hrow, if_neg Bool.false_ne_true]
      exact ends_carryOut_portrait ht hrules hready hnear hrow (hchanges plan rfl) hstays hprovenance

end

/-- A symbol that was moved into another scope lies there, and has the portrait that it had when its
handle was made current. -/
theorem ends_setScope_portrait (ht : t.Sound) (hrules : t.rules = .standard) (hserving : t.Serving)
    (he : t.Everywhere t.Proper) (hdepth : t.settings.maxDepth ≠ 0)
    (hnear : ∀ e (x : Situated σ), x.table.Near (notify e x).table) (h : HandleId) (scope : Scope) :
    Ends t (setScope notify h scope) fun answer t' => answer = .ok () →
      t'.Sound ∧ t'.Serving ∧ t'.IsReady h ∧ (t'.handle h).parent = scope ∧
        ∃ t₁, t.Refreshed h (.ok ()) t₁ ∧ t'.portrait h = t₁.portrait h := by
  refine .current ht h (fun _ => nofun) (fun _ _ _ => nofun) fun t₁ hr => ?_
  have ht₁ := hr.path.sound ht
  have hserving₁ : t₁.Serving := hserving.of_outages hr.path (congrArg Store.outages hr.path.upkeep.1)
  have hrules₁ : t₁.rules = .standard := hr.path.sameFrame.rules.trans hrules
  have hdepth₁ : t₁.settings.maxDepth ≠ 0 := hr.path.sameFrame.settings ▸ hdepth
  have he₁ := hr.everywhere_proper ht he
  refine (answers_nameOf ht₁.backend hserving₁.works h).ends_bind ?_
  rintro _ t₁ ⟨rfl, rfl⟩
  refine .look_bind ?_
  refine ((ends_rename_suits ht₁ hserving₁ hdepth₁ hnear h _ scope _).and
    (ends_rename_portrait ht₁ hrules₁ hr.isReady hnear hserving₁ he₁ hdepth₁ scope)).imp ?_
  rintro answer t' ⟨hsuits, hportrait⟩ hok
  obtain ⟨hsuits, -⟩ := hsuits hok
  exact ⟨hsuits.sound, hsuits.serving, hsuits.ready, hsuits.bears.parent, t₁, hr, hportrait hok⟩

end Action

/-- **Symbols change their scope alone.** Whatever was done through a table under the usual rules
since it was opened empty: once a symbol was moved into another scope, stored or derived, named,
unnamed or showing a name that it borrows, it answers with this scope, and with the same name,
provenance, address and data as before. The store works, listeners leave the table alone, and the
settings let a walk pass one row at least, so that names are shown. -/
theorem Runs.scopes_change_alone {s₀ s s' : Situated σ} (hnew : s₀.table.IsNew .standard)
    (hrun : Runs (fun _ _ m => m.goesThrough) false s₀ s) (hworks : s.table.store.Works)
    (hdepth : s.table.settings.maxDepth ≠ 0) (hnear : ∀ e (x : Situated σ), x.table.Near (notify e x).table)
    (hmove : (setScope notify h scope).run s = (.ok (), s')) :
    ∃ portrait, s.Portrays h portrait ∧ s'.Portrays h portrait ∧
      ((telling h (·.parent)).run s').1 = .ok scope := by
  have hrunPath := hrun.steps hnew.sound
  have hs := hrunPath.sound hnew.sound
  have hserving : s.table.Serving := ⟨hworks, hrun.opened hnew⟩
  have hrules : s.table.rules = .standard := hrunPath.sameFrame.rules.trans hnew.rules_eq
  have hends := ends_setScope_portrait hs hrules hserving (hrun.everywhere_proper hnew) hdepth hnear h scope s rfl
  rw [hmove] at hends
  obtain ⟨hs', hserving', hready', hparent, t₁, hr, hportrait⟩ := hends rfl
  have hr' : s'.table.Refreshed h (.ok ()) s'.table := .ready hready'
  refine ⟨t₁.portrait h, Situated.portrays_of_refreshed hs hserving hr, ?_, ?_⟩
  · rw [← hportrait]
    exact Situated.portrays_of_refreshed hs' hserving' hr'
  · exact (answer_telling_of_refreshed hs' hserving' hr' (·.parent)).trans (congrArg _ hparent)

/-- A function that borrows its name is moved into a scope. It has the same portrait before and
after, its borrowed name and its datum included. -/
theorem Runs.scopes_change_alone_of_borrower :
    let s₀ : Situated Unit := ⟨.empty default .standard, (), 0⟩
    let go (s : Situated Unit) (m : Move) := ((m.action Listener.recorder).run s).2
    let s := [.create ⟨"n", .namespaceScope, .nowhere, .global, .userDefined, 0, 0, none⟩,
      .create ⟨"f", .function, .ram 16, .global, .userDefined, 0, 0, none⟩,
      .create ⟨"", .function, .ram 32, .global, .default, 2, 0, some "x"⟩].foldl go s₀
    let scope : Scope := .of ⟨1, by decide⟩
    let s' := ((setScope Listener.recorder 2 scope).run s).2
    s₀.table.IsNew .standard ∧ Runs (fun _ _ m => m.goesThrough) false s₀ s ∧ s.table.store.Works ∧
      s.table.settings.maxDepth ≠ 0 ∧ (∀ e (x : Situated Unit), x.table.Near (Listener.recorder e x).table) ∧
      (setScope Listener.recorder 2 scope).run s = (.ok (), s') ∧ ((telling 2 (·.parent)).run s).1 = .ok .global ∧
      ((telling 2 (·.parent)).run s').1 = .ok scope ∧ s.Portrays 2 ⟨"f", .default, .ram 32, 2, 0, some "x"⟩ ∧
      s'.Portrays 2 ⟨"f", .default, .ram 32, 2, 0, some "x"⟩ := by
  intro s₀ go s scope s'
  have hnew : s₀.table.IsNew .standard := .memory _ _ _
  have hchronicle : Chronicle (fun _ _ m => m.goesThrough) false s₀ s :=
    .move (.move (.move .refl trivial .recorder) trivial .recorder) trivial .recorder
  have hworks : s.table.store.Works := hchronicle.works hnew.sound fun _ _ _ => rfl
  have hdepth : s.table.settings.maxDepth ≠ 0 := by decide +kernel
  have hnear : ∀ e (x : Situated Unit), x.table.Near (Listener.recorder e x).table :=
    Listener.Records.near Listener.records_recorder
  have hok : ((setScope Listener.recorder 2 scope).run s).1 = .ok () := by decide +kernel
  have hs' : ((setScope Listener.recorder 2 scope).run s).2 = s' := rfl
  clear_value s'
  have hmove : (setScope Listener.recorder 2 scope).run s = (.ok (), s') := Prod.ext hok hs'
  obtain ⟨x, hbefore, hafter, hparent⟩ := Runs.scopes_change_alone hnew hchronicle.runs hworks hdepth hnear hmove
  have hportrays : s.Portrays 2 ⟨"f", .default, .ram 32, 2, 0, some "x"⟩ :=
    ⟨by decide +kernel, by decide +kernel, by decide +kernel, by decide +kernel, by decide +kernel, by decide +kernel⟩
  have hsame : x = ⟨"f", .default, .ram 32, 2, 0, some "x"⟩ := hbefore.unique hportrays
  subst hsame
  exact ⟨hnew, hchronicle.runs, hworks, hdepth, hnear, hmove, by decide +kernel, hparent, hbefore, hafter⟩

/-- Where no walk may pass a row, a label shows the name derived from its address, whatever its own
is. When it is moved to the scope in which it is, it loses its name, which is written, noted and
told. -/
theorem Runs.scopes_do_not_change_alone :
    let settings : Settings := { (default : Settings) with maxDepth := 0 }
    let s₀ : Situated Unit := ⟨.empty settings .standard, (), 0⟩
    let go (s : Situated Unit) (m : Move) := ((m.action Listener.recorder).run s).2
    let s := go s₀ (.create ⟨"a", .label, .ram 16, .global, .userDefined, 0, 0, none⟩)
    let moving : Action Unit Unit := setScope Listener.recorder 0 .global
    let s' := (moving.run s).2
    s₀.table.IsNew .standard ∧ Runs (fun _ _ m => m.goesThrough) false s₀ s ∧ s.table.store.Works ∧
      (∀ e (x : Situated Unit), x.table.Near (Listener.recorder e x).table) ∧
      ((isValid 0).run s).1 = .ok true ∧ (moving.run s).1 = .ok () ∧
      ((telling 0 (·.provenance)).run s).1 = .ok .userDefined ∧
      ((telling 0 (·.provenance)).run s').1 = .ok .default ∧
      (s.table.row? ⟨1, by decide⟩).map (·.name) = some "a" ∧
      (s'.table.row? ⟨1, by decide⟩).map (·.name) = some "" := by
  intro settings s₀ go s moving s'
  have hnew : s₀.table.IsNew .standard := .memory _ _ _
  have hchronicle : Chronicle (fun _ _ m => m.goesThrough) false s₀ s := .move .refl trivial .recorder
  have hworks : s.table.store.Works := hchronicle.works hnew.sound fun _ _ _ => rfl
  have hnear : ∀ e (x : Situated Unit), x.table.Near (Listener.recorder e x).table :=
    Listener.Records.near Listener.records_recorder
  exact ⟨hnew, hchronicle.runs, hworks, hnear, by decide +kernel, by decide +kernel, by decide +kernel,
    by decide +kernel, by decide +kernel, by decide +kernel⟩

end SymbolTable
