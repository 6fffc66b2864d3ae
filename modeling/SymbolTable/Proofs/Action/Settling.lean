import SymbolTable.Proofs.Promotion

/-!
# What a rename settles for and carries out

A rename settles for a provenance, and with it for a name: a chosen one, or none. It does nothing
for a symbol that `Bears` this already, and compares what the symbol shows, not what is stored of
it. Otherwise it has a plan that `Intends` what was asked for, and whether a row is edited for it or
a derived symbol is stored, the plan is carried out in one write (`Table.Enacts`). What is noted and
told of it afterwards keeps up handles at most (`Course.tending`). So a symbol of which a rename was
answered is as it was asked for, and there is nothing more to be done for it (`Table.Suits`).
-/

namespace SymbolTable

open SymbolTable.Action
open Table (Path upkeep)

variable {σ α : Type} {t t₁ t₂ t' : Table} {notify : Listener σ} {h : HandleId} {name : String} {scope : Scope}
  {p : Provenance} {plan : Rename}

/-! ## What a rename settles for -/

namespace Table

/-- The provenance that a rename of the symbol to a name settles for. -/
def settles (t : Table) (s : Handle) (name : String) (p : Provenance) : Provenance :=
  t.rules.settle s.kind name s.address p

/-- The symbol of a handle may have the name that is asked for, with the provenance that is settled
for. -/
structure Permits (t : Table) (s : Handle) (name : String) (p : Provenance) : Prop where
  provenance : t.checkProvenance name s.address s.kind (t.settles s name p) = .ok ()
  name : t.settles s name p ≠ .default → t.checkName name = .ok ()

/-- There is nothing to be done for a symbol: it lies in the scope that is asked for, and shows the
name if one is settled for. -/
structure Bears (t : Table) (s : Handle) (name : String) (scope : Scope) (p : Provenance) : Prop where
  parent : s.parent = scope
  unnamed : t.settles s name p = .default → s.provenance = .default
  named : t.settles s name p ≠ .default → t.shownFor s = name

/-- The plan of a rename is to put the symbol into the scope that is asked for, under the name and
with the provenance that are settled for. A name that is chosen is not the one that is shown already
in this scope. -/
structure Intends (t : Table) (s : Handle) (name : String) (scope : Scope) (p : Provenance) (plan : Rename) :
    Prop where
  scope_eq : plan.scope = scope
  provenance_eq : plan.provenance = t.settles s name p
  unnamed : plan.provenance = .default → plan.name = ""
  named : plan.provenance ≠ .default → plan.name = name
  changes : plan.provenance ≠ .default → ¬ (t.shownFor s = name ∧ s.parent = scope)

end Table

namespace Action

/-- What is proposed is what is asked for, and if nothing is, there is nothing to be done. The
provenance is settled before, and whether there is a plan is decided on what the symbol shows and
where it lies. A name is checked in any case, so what is answered without a plan is permitted,
too. -/
theorem tells_proposeRename_intends (ht : t.Sound) (s : Handle) (name : String) (scope : Scope) (p : Provenance) :
    Tells t (proposeRename s (t.shownFor s) name scope (t.settles s name p) : Action σ _) fun plan? =>
      (t.settles s name p ≠ .default → t.checkName name = .ok ()) ∧
      (plan? = none → t.Bears s name scope p) ∧ ∀ plan, plan? = some plan → t.Intends s name scope p plan := by
  unfold proposeRename
  split
  · rename_i hdefault
    refine .pure ⟨fun hnamed => absurd hdefault hnamed, fun hnone => ?_, fun plan hplan => ?_⟩
    · split at hnone
      · cases hnone
      · rename_i hsame
        simp only [Rename.moves, Bool.or_eq_true, decide_eq_true_eq, not_or, not_not] at hsame
        exact ⟨hsame.2, fun _ => hsame.1, fun hnamed => absurd hdefault hnamed⟩
    · split at hplan
      · cases hplan
        exact ⟨rfl, rfl, fun _ => rfl, fun hnamed => absurd hdefault hnamed, fun hnamed => absurd hdefault hnamed⟩
      · cases hplan
  · rename_i hnamed
    refine .ask_bind fun _ hname => ?_
    dsimp only
    split
    · rename_i hchanges
      simp only [Rename.moves, Bool.or_eq_true, decide_eq_true_eq] at hchanges
      refine (tells_checkDuplicate ht _ _ _ _ _).bind fun _ _ => .pure ⟨fun _ => hname, ?_, fun plan hplan => ?_⟩
      · exact fun hnone => absurd hnone (Option.some_ne_none _)
      · cases hplan
        refine ⟨rfl, rfl, fun hdefault => absurd hdefault hnamed, fun _ => rfl, fun _ hsame => ?_⟩
        exact hchanges.elim (fun hne => hne hsame.1) fun hne => hne hsame.2
    · rename_i hsame
      simp only [Rename.moves, Bool.or_eq_true, decide_eq_true_eq, not_or, not_not] at hsame
      refine .pure ⟨fun _ => hname, fun _ => ?_, fun plan hplan => absurd hplan.symm (Option.some_ne_none plan)⟩
      exact ⟨hsame.2, fun hdefault => absurd hdefault hnamed, fun _ => hsame.1⟩

/-- A rename that is planned, or need not be, is permitted. All that is asked for on the way is
checked, and a check that fails refuses the rename. The store has to work, or a name might not be
told and a refusal be taken for an answer. -/
theorem tells_planRename_intends (ht : t.Sound) (hworks : t.store.Works) (h : HandleId) (name : String)
    (scope : Scope) (p : Provenance) :
    Tells t (planRename h name scope p : Action σ _) fun plan? =>
      t.Permits (t.handle h) name p ∧ (plan? = none → t.Bears (t.handle h) name scope p) ∧
      ∀ plan, plan? = some plan → t.Intends (t.handle h) name scope p plan := by
  refine .look_bind ((answers_nameOf ht.backend hworks h).tells.bind fun shown hshown => .ask_bind fun _ _ => ?_)
  subst hshown
  refine .look_bind (.ask_bind fun _ hprovenance => ?_)
  have hpropose := tells_proposeRename_intends (σ := σ) ht (t.handle h) name scope p
  have hpermits : Tells t (proposeRename (t.handle h) (t.shownFor (t.handle h)) name scope
      (t.settles (t.handle h) name p) : Action σ _) fun plan? =>
        t.Permits (t.handle h) name p ∧ (plan? = none → t.Bears (t.handle h) name scope p) ∧
        ∀ plan, plan? = some plan → t.Intends (t.handle h) name scope p plan := by
    refine hpropose.imp fun answer t' htells => ⟨htells.1, fun plan? hplan => ?_⟩
    obtain ⟨hname, hrest⟩ := htells.2 plan? hplan
    exact ⟨⟨hprovenance, hname⟩, hrest⟩
  dsimp only
  split
  · exact (tells_checkMove ht h _ scope).bind fun _ _ => hpermits
  · exact hpermits

/-- Where there is nothing to be done, nothing is proposed. To bear what is asked for is to show the
name and lie in the scope, so neither part of a plan would change anything. -/
theorem answers_proposeRename_none {s : Handle} (hpermits : t.Permits s name p) (hbears : t.Bears s name scope p) :
    Answers t (proposeRename s (t.shownFor s) name scope (t.settles s name p) : Action σ _) fun plan? t' =>
      plan? = none ∧ t' = t := by
  unfold proposeRename
  split
  · rename_i hdefault
    refine .pure ⟨if_neg ?_, rfl⟩
    simp [Rename.moves, hbears.unnamed hdefault, hbears.parent]
  · rename_i hnamed
    refine Ends.ask_bind (fun _ _ => ?_) fun fault hfault => ?_
    · dsimp only
      rw [if_neg (by simp [Rename.moves, hbears.named hnamed, hbears.parent])]
      exact Answers.pure ⟨rfl, rfl⟩
    · cases (hpermits.name hnamed).symm.trans hfault

/-- Where there is nothing to be done, nothing is planned. The checks are made all the same, and
pass since they passed for what is permitted. That no register lies there settles the one check that
is not about what was asked for. -/
theorem answers_planRename_none (hb : t.store.backend.Sound) (hworks : t.store.Works)
    (hpermits : t.Permits (t.handle h) name p) (hbears : t.Bears (t.handle h) name scope p)
    (hregisters : t.facts.registersAt (t.handle h).address = []) :
    Answers t (planRename h name scope p : Action σ _) fun plan? t' => plan? = none ∧ t' = t := by
  have heditable : t.checkEditable h (t.shownFor (t.handle h)) = .ok () := by
    rw [Table.checkEditable, hregisters, List.contains_nil, Bool.and_false, if_neg Bool.false_ne_true]
  refine .look_bind ((answers_nameOf hb hworks h).bind ?_)
  rintro _ t ⟨rfl, rfl⟩
  refine Ends.ask_bind (fun _ _ => ?_) fun fault hfault => (nomatch heditable.symm.trans hfault)
  refine Ends.look_bind (Ends.ask_bind (fun _ _ => ?_) fun fault hfault => ?_)
  · dsimp only
    rw [if_neg (not_not.2 hbears.parent)]
    exact answers_proposeRename_none hpermits hbears
  · cases hpermits.provenance.symm.trans hfault

end Action

namespace Table

/-- Nothing more is to be done for the symbol of a handle: what is asked for is permitted, and it
bears it. -/
structure Suits (t : Table) (h : HandleId) (name : String) (scope : Scope) (p : Provenance) : Prop where
  sound : t.Sound
  serving : t.Serving
  ready : t.IsReady h
  permits : t.Permits (t.handle h) name p
  bears : t.Bears (t.handle h) name scope p

end Table

/-- Where nothing more is to be done, a rename does nothing. No plan is made, so nothing is written
and nobody is told. -/
theorem Table.Suits.answers_rename (hsuits : t.Suits h name scope p)
    (hregisters : t.facts.registersAt (t.handle h).address = []) :
    Answers t (rename notify h name scope p) fun _ t' => t' = t := by
  refine answers_current_of_isReady hsuits.serving.opened hsuits.ready ?_
  refine (answers_planRename_none hsuits.sound.backend hsuits.serving.works hsuits.permits hsuits.bears
    hregisters).bind ?_
  rintro _ _ ⟨rfl, rfl⟩
  exact .pure rfl

/-! ## What is carried out -/

/-- Handles are kept up, and registers keep their names. -/
def Course.tending : Course where
  rel t t' := Path upkeep t t' ∧ t'.facts.registersAt = t.facts.registersAt
  refl _ := ⟨.refl, rfl⟩
  trans h h' := ⟨h.1.trans h'.1, h'.2.trans h.2⟩
  path h := h.1.mono fun _ => False.elim
  keepsUp _ htended := ⟨.single htended.stride.step, congrArg Facts.registersAt htended.stride.facts⟩

theorem Course.aloof_tending : Course.tending.Aloof :=
  fun _ _ _ hbeside hfacts => ⟨.single (.aside hbeside), congrArg Facts.registersAt hfacts⟩

/-- A plan was carried out: the symbol of the handle has a row in the scope of the plan, with its
name and its provenance. -/
structure Table.Enacts (t : Table) (h : HandleId) (plan : Rename) (t' : Table) : Prop where
  exists_row : ∃ r, (t'.handle h).row = some r ∧ t'.row? r.id = some r ∧ r.parent = plan.scope ∧
    r.name = plan.name ∧ r.provenance = plan.provenance
  ready : t'.IsReady h
  kind : (t'.handle h).kind = (t.handle h).kind
  address : (t'.handle h).address = (t.handle h).address
  frame : t.SameFrame t'
  sound : t'.Sound
  works : t.store.Works → t'.store.Works
  registersAt : t'.facts.registersAt = t.facts.registersAt

/-- What is done afterwards to keep up handles changes nothing about it. The row that the plan made
is still there and still the copy of the handle, and which registers there are at its address is as
it was. -/
theorem Table.Enacts.tended (he : t.Enacts h plan t₁) (hrel : Course.tending.rel t₁ t') : t.Enacts h plan t' := by
  obtain ⟨hpath, hregisters⟩ := hrel
  have hhandle := he.ready.handle_eq hpath
  have hrows : t'.rows = t₁.rows := hpath.rows_eq_of_upkeep
  refine ⟨?_, he.ready.of_upkeep hpath, ?_, ?_, he.frame.trans hpath.sameFrame, hpath.sound he.sound, fun hworks => ?_,
    ?_⟩
  · rw [hhandle]
    simpa only [Table.row?_congr hrows] using he.exists_row
  · rw [hhandle, he.kind]
  · rw [hhandle, he.address]
  · rw [hpath.upkeep.1]
    exact he.works hworks
  · rw [hregisters, he.registersAt]

/-- It is carried out if handles are kept up first. The handle is the same before and after, for it
was ready, so its kind, its address and its row are. -/
theorem Table.Enacts.after (hready : t.IsReady h) (hrel : Course.upkept.rel t t₁) (he : t₁.Enacts h plan t') :
    t.Enacts h plan t' := by
  have hpath := Course.path_of_upkept hrel
  have hhandle := hready.handle_eq hpath
  refine ⟨he.exists_row, he.ready, ?_, ?_, hpath.sameFrame.trans he.frame, he.sound, fun hworks => he.works ?_, ?_⟩
  · rw [he.kind, hhandle]
  · rw [he.address, hhandle]
  · rw [hpath.upkeep.1]
    exact hworks
  · rw [he.registersAt, Course.facts_of_upkept hrel]

namespace Table

variable {r row : Row} {b : Store.Backend}

/-- The handle of a row that is written has the row. -/
theorem handle_written (hlive : (t.handle h).deleted = false) :
    (t.written h r b).handle h = (t.handle h).refreshed r (t.withBackend b).store.modificationCount :=
  handle_updateHandle_self (t.withBackend b) (lt_of_live hlive) (·.refreshed r _)

/-- The handle whose row was just written is ready, if it was live. Its copy is the row, read at the
count that the store has now. -/
theorem isReady_written (hlive : (t.handle h).deleted = false) : (t.written h r b).IsReady h := by
  constructor
  · rw [handle_written hlive]
    exact hlive
  · rw [handle_written hlive]
    exact .inr rfl

/-- The handle of a derived symbol that is stored has its row. -/
theorem handle_embodied (hlive : (t.handle h).deleted = false) :
    ((t.withBackend b).embody h row).handle h =
      (t.handle h).promoted row (t.store.withBackend b).modificationCount :=
  handle_updateHandle_self (t.withBackend b) (lt_of_live hlive) (·.promoted row _)

/-- The handle of a derived symbol that was just stored is ready, if it was live. The row that it
was given is its copy. -/
theorem isReady_embodied (hlive : (t.handle h).deleted = false) : ((t.withBackend b).embody h row).IsReady h := by
  constructor
  · rw [handle_embodied hlive]
    exact hlive
  · rw [handle_embodied hlive]
    exact .inr rfl

end Table

namespace Action

/-- A plan for a stored symbol is carried out in one write, unless it is refused before that.
Handles are kept up first, and after the write it goes along a course that the listener heeds. -/
theorem ends_carryOut_along {c : Course} (hn : Heeds c notify) (hnote : c.Notes) (ht : t.Sound) :
    Ends t (carryOut notify h plan) fun answer t' => answer ≠ .ok () ∧ Course.upkept.rel t t' ∨
      ∃ t₁ r b, Course.upkept.rel t t₁ ∧ (t₁.handle h).row = some r ∧ t₁.store.backend.Puts (plan.apply r) b ∧
        c.rel (t₁.written h (plan.apply r) b) t' := by
  refine .look_bind (.bind (follows_borrowers (c := .upkept) h t ht) (fun bs t₁ hrel₁ => ?_)
    fun _ _ hrel => .inl ⟨nofun, hrel⟩)
  refine .bind (Follows.mapM (c := .upkept) follows_name bs t₁ (hrel₁.sound ht)) (fun names t₂ hrel₂ => ?_)
    fun _ _ hrel => .inl ⟨nofun, hrel₁.trans hrel⟩
  have hrel := hrel₁.trans hrel₂
  have ht₂ := hrel.sound ht
  refine .seq (ends_write ht₂ h (fun r b hrow hputs => .ok ?_) fun _ => .inl ⟨nofun, hrel⟩)
  have hname : Follows c (if plan.renames then
      announceName notify h (t.handle h).key (t.handle h).address plan.oldName (bs.zip names) else pure ()) := by
    split
    · exact follows_announceName hn hnote h _ _ _ _
    · exact .pure _
  have htold : Follows c (do
      if plan.moves then
        emit notify (t.handle h).key (t.handle h).address (.scopeChanged plan.oldScope plan.scope)
      if plan.renames then
        announceName notify h (t.handle h).key (t.handle h).address plan.oldName (bs.zip names)) := by
    dsimp only
    split
    · exact .bind (follows_emit hn _ _ nofun) fun _ => hname
    · exact hname
  have hwritten : (t₂.written h (plan.apply r) b).Sound := ht₂.written hrow rfl rfl hputs
  exact (htold _ hwritten).imp fun _ _ hdone => .inr ⟨t₂, r, b, hrel, hrow, hputs, hdone⟩

section
variable (ht : t.Sound) (hnear : ∀ e (x : Situated σ), x.table.Near (notify e x).table)

include ht hnear

/-- For a stored symbol a plan is carried out in one write. Before and after it, handles are kept
up. Nothing but upkeep happens before, so the row that is written over is that of the table at
first. What comes after is to tell and to note. -/
theorem ends_carryOut_writes :
    Ends t (carryOut notify h plan) fun answer t' => answer = .ok () →
      ∃ t₁ r b, Course.upkept.rel t t₁ ∧ (t₁.handle h).row = some r ∧ t₁.store.backend.Puts (plan.apply r) b ∧
        Course.tending.rel (t₁.written h (plan.apply r) b) t' := by
  have hn : Heeds Course.tending notify := .of_near Course.aloof_tending hnear
  refine (ends_carryOut_along hn Course.aloof_tending.deaf.notes ht).imp fun _ _ hcarried hok => ?_
  exact hcarried.resolve_left fun hrefused => hrefused.1 hok

/-- A plan for a stored symbol is carried out by one write. Everything after it is told or noted,
with a listener that does not act on the table, so nothing about the row changes any more. -/
theorem ends_carryOut_enacts (hready : t.IsReady h) :
    Ends t (carryOut notify h plan) fun answer t' => answer = .ok () → t.Enacts h plan t' := by
  refine (ends_carryOut_writes ht hnear).imp fun answer t' hwrites hok => ?_
  obtain ⟨t₂, r, b, hrel, hrow, hputs, htended⟩ := hwrites hok
  have ht₂ := hrel.sound ht
  have hready₂ := hready.of_upkeep (Course.path_of_upkept hrel)
  have hhandle := Table.handle_written (r := plan.apply r) (b := b) hready₂.live
  have henacts : t₂.Enacts h plan (t₂.written h (plan.apply r) b) := by
    refine ⟨⟨plan.apply r, ?_, Table.row?_self_of_puts hputs, rfl, rfl, provenance_apply plan r⟩,
      Table.isReady_written hready₂.live, ?_, ?_, ⟨rfl, rfl, rfl⟩, ht₂.written hrow rfl rfl hputs, id, rfl⟩
    · rw [hhandle]
      rfl
    · rw [hhandle]
      rfl
    · rw [hhandle]
      exact ((ht₂.inOrder h).address r hrow).symm
  exact (henacts.tended htended).after hready hrel

/-- A derived symbol is stored as the plan says. After that, handles are kept up. An id is drawn for
the row, which takes the name, the scope and the provenance from the plan and the kind and the
address from the handle. -/
theorem ends_promote_stores (hready : t.IsReady h) (hrow : (t.handle h).row = none)
    (hplan : Planned t (t.handle h) plan) :
    Ends t (promote notify h plan) fun answer t' => answer = .ok () → ∃ id b,
      let row := Row.fresh id (t.handle h).kind (t.handle h).address plan.name plan.scope plan.provenance
      t.store.backend.allocate.2.Puts row b ∧ ((t.withBackend b).embody h row).Sound ∧
        Course.tending.rel ((t.withBackend b).embody h row) t' := by
  have hn : Heeds Course.tending notify := .of_near Course.aloof_tending hnear
  refine .look_bind (.drawRow ht.backend (fun id b hdraw hputs => ?_) (fun _ => nofun) fun _ => nofun)
  generalize hfresh : Row.fresh id (t.handle h).kind (t.handle h).address plan.name plan.scope
    plan.provenance = row at hputs ⊢
  have hstep : Table.Step (Eq .write) t ((t.withBackend b).embody h row) := by
    have hparent := hplan.parent
    rw [Handle.parent_of_rowless hrow] at hparent
    subst hfresh
    refine .promote rfl h hready.live hrow rfl rfl ⟨hdraw, hputs, fun hnamed => ?_⟩ hparent
    have hfree := hplan.free fun hdefault => hnamed ((Row.ofBits_rank_and _).trans hdefault)
    rwa [Handle.id?_of_derived ((ht.inOrder h).derived hready.live hrow).1] at hfree
  have hsound := hstep.sound ht
  have hclaimed : Course.tending.rel ((t.withBackend b).embody h row)
      (((t.withBackend b).embody h row).claimPrimary (t.handle h).address id (t.handle h).kind) := by
    refine ⟨.single (.aside (Table.beside_claimPrimary ..)), ?_⟩
    unfold Table.claimPrimary
    split <;> rfl
  refine .change_bind (.change_bind ?_)
  have htold := follows_tellPromotion hn Course.aloof_tending.deaf.notes h id (t.handle h).address plan
  subst hfresh
  exact (htold _ (hclaimed.sound hsound)).imp fun _ _ htended _ =>
    ⟨id, b, hputs, hsound, hclaimed.trans htended⟩

/-- A plan for a derived symbol is carried out by storing it. The row is read off
`ends_promote_stores`, and the rest keeps it as it keeps any row. -/
theorem ends_promote_enacts (hready : t.IsReady h) (hrow : (t.handle h).row = none)
    (hplan : Planned t (t.handle h) plan) :
    Ends t (promote notify h plan) fun answer t' => answer = .ok () → t.Enacts h plan t' := by
  refine (ends_promote_stores ht hnear hready hrow hplan).imp fun answer t' hstores hok => ?_
  obtain ⟨id, b, hputs, hsound, htended⟩ := hstores hok
  generalize hfresh : Row.fresh id (t.handle h).kind (t.handle h).address plan.name plan.scope
    plan.provenance = row at hputs hsound htended
  have hhandle : ((t.withBackend b).embody h row).handle h = _ := Table.handle_embodied hready.live
  have hself : (t.withBackend b).row? row.id = some row := Table.row?_self_of_puts hputs
  have henacts : t.Enacts h plan ((t.withBackend b).embody h row) := by
    refine ⟨⟨row, ?_, hself, ?_⟩, Table.isReady_embodied hready.live, ?_, ?_, ⟨rfl, rfl, rfl⟩, hsound,
      fun hworks => hworks, rfl⟩
    · rw [hhandle]
      rfl
    · subst hfresh
      exact ⟨rfl, rfl, Row.ofBits_rank_and _⟩
    · rw [hhandle]
      rfl
    · subst hfresh
      rw [hhandle]
      rfl
  exact henacts.tended htended

end

end Action

/-! ## What suits -/

namespace Table

/-- What is permitted depends on the rules and the settings, and on the kind and the address of the
symbol. So it is not lost when the handle is refreshed before the rename, or its row is edited. -/
theorem Permits.congr {s s' : Handle} (hpermits : t.Permits s name p) (hframe : t.SameFrame t')
    (hkind : s'.kind = s.kind) (haddress : s'.address = s.address) : t'.Permits s' name p := by
  obtain ⟨hprovenance, hname⟩ := hpermits
  unfold settles checkProvenance at hprovenance
  unfold settles checkName at hname
  rw [← hkind, ← haddress, ← hframe.rules] at hprovenance hname
  rw [← hframe.settings] at hname
  exact ⟨hprovenance, hname⟩

/-- What a rename settles for stays the same when a plan was carried out, since it depends on the
kind and the address. -/
theorem Enacts.settles_eq (he : t.Enacts h plan t') (name : String) (p : Provenance) :
    t'.settles (t'.handle h) name p = t.settles (t.handle h) name p := by
  rw [settles, settles, he.frame.rules, he.kind, he.address]

/-- Once what was asked for is carried out, there is nothing more to be done, if names are shown at
all. At depth zero a symbol shows the name by its kind whatever its own is, so it would be renamed
again. -/
theorem Enacts.bears (he : t.Enacts h plan t') (hplan : t.Intends (t.handle h) name scope p plan)
    (hdepth : t.settings.maxDepth ≠ 0) : t'.Bears (t'.handle h) name scope p := by
  obtain ⟨r, hrow, -, hparent, hname, hprovenance⟩ := he.exists_row
  refine ⟨?_, fun hdefault => ?_, fun hnamed => ?_⟩
  · rw [Handle.parent_of_row hrow, hparent, hplan.scope_eq]
  · rw [he.settles_eq, ← hplan.provenance_eq] at hdefault
    rw [Handle.provenance, hrow]
    exact hprovenance.trans hdefault
  · rw [he.settles_eq, ← hplan.provenance_eq] at hnamed
    rw [shownFor_of_row hrow, shown_of_named (he.frame.settings ▸ hdepth) (hprovenance ▸ hnamed), hname,
      hplan.named hnamed]

/-- After a plan was carried out, the symbol suits what was asked for. At depth zero it would not
show the name that it was given, which is why `hdepth` is asked for. -/
theorem Enacts.suits (he : t.Enacts h plan t') (hserving : t.Serving)
    (hplan : t.Intends (t.handle h) name scope p plan) (hpermits : t.Permits (t.handle h) name p)
    (hdepth : t.settings.maxDepth ≠ 0) : t'.Suits h name scope p where
  sound := he.sound
  serving := ⟨he.works hserving.works, he.frame.closed.trans hserving.opened⟩
  ready := he.ready
  permits := hpermits.congr he.frame he.kind he.address
  bears := he.bears hplan hdepth

end Table

/-- Once a rename was answered, nothing more is to be done: there was nothing to be done for the
symbol when its handle was made current, or what was asked for was planned and carried out. -/
theorem Action.ends_rename_suits (ht : t.Sound) (hserving : t.Serving) (hdepth : t.settings.maxDepth ≠ 0)
    (hnear : ∀ e (x : Situated σ), x.table.Near (notify e x).table) (h : HandleId) (name : String) (scope : Scope)
    (p : Provenance) :
    Ends t (rename notify h name scope p) fun answer t' => answer = .ok () →
      t'.Suits h name scope p ∧ ∃ t₁, t.Refreshed h (.ok ()) t₁ ∧
        (t' = t₁ ∨ ∃ plan, t₁.Intends (t₁.handle h) name scope p plan ∧ t₁.Enacts h plan t') := by
  refine .current ht h (fun _ => nofun) (fun _ _ _ => nofun) fun t₁ hr => ?_
  have ht₁ := hr.path.sound ht
  have hserving₁ : t₁.Serving := hserving.of_outages hr.path (congrArg Store.outages hr.path.upkeep.1)
  have hdepth₁ : t₁.settings.maxDepth ≠ 0 := hr.path.sameFrame.settings ▸ hdepth
  refine Tells.ends_bind ((tells_planRename ht₁ h name scope p).and
    (tells_planRename_intends ht₁ hserving₁.works h name scope p)) (fun plan? hplan => ?_) fun _ => nofun
  obtain ⟨hplanned, hpermits, hbears, hintends⟩ := hplan
  cases plan? with
  | none => exact .pure fun _ => ⟨⟨ht₁, hserving₁, hr.isReady, hpermits, hbears rfl⟩, t₁, hr, .inl rfl⟩
  | some plan =>
    have hintended := hintends plan rfl
    refine .look_bind ?_
    split
    · rename_i hderived
      have hrow := (Handle.isDerived_iff.1 hderived).1
      exact (ends_promote_enacts ht₁ hnear hr.isReady hrow (hplanned plan rfl).1).imp fun _ _ henacts hok =>
        ⟨(henacts hok).suits hserving₁ hintended hpermits hdepth₁, t₁, hr, .inr ⟨plan, hintended, henacts hok⟩⟩
    · exact (ends_carryOut_enacts ht₁ hnear hr.isReady).imp fun _ _ henacts hok =>
        ⟨(henacts hok).suits hserving₁ hintended hpermits hdepth₁, t₁, hr, .inr ⟨plan, hintended, henacts hok⟩⟩

/-! ## Symbols that are asked -/

/-- Where the store works, there is one outcome of a refresh. A refresh fails only if the store does
not answer, or if the handle is gone or turns out to be, and the row that is found is the same. -/
theorem Table.Refreshed.eq_of_ok {answer : Except Fault Unit} (hr : t.Refreshed h (.ok ()) t₁) (hworks : t.store.Works)
    (hr' : t.Refreshed h answer t') : answer = .ok () ∧ t' = t₁ := by
  have hready_ne {r : Row} (hready : t.IsReady h) (hrow : (t.handle h).row = some r)
      (hstale : (t.handle h).seenAt ≠ t.store.modificationCount) : False := by
    rcases hready.current with hnone | hseen
    · cases hrow.symm.trans hnone
    · exact hstale hseen
  cases hr' with
  | failed _ hfails => exact absurd hfails hworks.not_mayFail
  | deleted hdeleted => cases hdeleted.symm.trans hr.live
  | ready hready =>
    cases hr with
    | ready => exact ⟨rfl, rfl⟩
    | reloaded _ hrow hstale => exact (hready_ne hready hrow hstale).elim
  | reloaded _ hrow hstale hget =>
    cases hr with
    | ready hready => exact (hready_ne hready hrow hstale).elim
    | reloaded _ hrow' _ hget' =>
      cases hrow.symm.trans hrow'
      cases hget.symm.trans hget'
      exact ⟨rfl, rfl⟩
  | vanished _ hrow hstale hgone =>
    cases hr with
    | ready hready => exact (hready_ne hready hrow hstale).elim
    | reloaded _ hrow' _ hget' htag =>
      cases hrow.symm.trans hrow'
      exact absurd htag (hgone _ hget')

namespace Action

/-- What is asked of a symbol is asked once its handle is current. The refresh is the one that is
known already, so nothing has to be said of the cases in which it fails. -/
theorem ends_current_of_refreshed (ht : t.Sound) (hserving : t.Serving)
    (hr : t.Refreshed h (.ok ()) t₁) {a : Action σ α} {Q : Except Fault α → Table → Prop} (ha : Ends t₁ a Q) :
    Ends t (current h a) Q := by
  refine .ask_bind (fun _ _ => .bind (ends_refresh ht h) (fun _ t₂ hr₂ => ?_) fun fault t₂ hr₂ => ?_)
    fun fault hfault => ?_
  · obtain ⟨-, rfl⟩ := hr.eq_of_ok hserving.works hr₂
    exact ha
  · cases (hr.eq_of_ok hserving.works hr₂).1
  · rw [hserving.opened] at hfault
    cases hfault

section
variable {s : Situated σ} (hs : s.table.Sound) (hserving : s.table.Serving) (hr : s.table.Refreshed h (.ok ()) t₁)

include hs hserving hr

/-- What is asked of a symbol is told of the handle as the refresh leaves it. -/
theorem answer_telling_of_refreshed (q : Handle → α) : ((telling h q).run s).1 = .ok (q (t₁.handle h)) := by
  have htold : Ends s.table (telling h q : Action σ _) fun answer _ => answer = .ok (q (t₁.handle h)) :=
    ends_current_of_refreshed hs hserving hr (.look rfl)
  exact htold s rfl

/-- The name that a symbol tells is the one that it shows after the refresh. This is the answer that
a caller gets who asks for it from outside. -/
theorem answer_currentName_of_refreshed : ((currentName h).run s).1 = .ok (t₁.shownFor (t₁.handle h)) := by
  have hshown : Ends t₁ (nameOf h : Action σ _) fun answer _ => answer = .ok (t₁.shownFor (t₁.handle h)) := by
    refine Ends.imp (answers_nameOf (hr.path.sound hs).backend (hr.path.upkeep.1 ▸ hserving.works) h) ?_
    rintro _ _ ⟨_, rfl, rfl, -⟩
    rfl
  exact ends_current_of_refreshed hs hserving hr hshown s rfl

end

end Action

end SymbolTable
