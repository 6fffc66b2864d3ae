import SymbolTable.Proofs.Action.Creation

/-!
# The course of a rename

A plan is made and checked at one table, and carried out at another: in between, handles are kept
up, but neither the rows nor the handle of the symbol change, so the plan still passes its checks
(`Planned.of_upkeep`). A derived symbol is stored at once.
-/

namespace SymbolTable

open Table (Path upkeep)

variable {σ : Type} {t t' : Table} {c : Course} {notify : Listener σ}

/-- What is known of a plan that was made for a handle: its name is free, a scope that is new to the
symbol accepts it and does not lie in it, and the symbol may have this name and provenance. -/
structure Planned (t : Table) (s : Handle) (plan : Rename) : Prop where
  free : plan.provenance ≠ .default →
    t.NameFree s.address plan.name plan.scope s.kind.tag s.id?
  parent : plan.scope ≠ s.parent → t.Accepts s.kind plan.scope
  outside : plan.scope ≠ s.parent → ∀ id, s.id? = some id →
    ∃ rs, t.Climbs plan.scope rs ∧ ∀ x ∈ rs, x.id ≠ id
  vetted : t.Vetted s.kind s.address plan.name plan.provenance

namespace Action

/-- A new scope that passes its checks accepts the symbol, and the symbol is not on the way up from
it. The walk up from the new scope has come to an end, or the check would have failed, and it did
not meet the symbol. -/
theorem tells_checkMove (ht : t.Sound) (h : HandleId) (shown : String) (scope : Scope) :
    Tells t (checkMove h shown scope : Action σ _) fun _ =>
      t.Accepts (t.handle h).kind scope ∧ ∀ id, (t.handle h).id? = some id →
        ∃ rs, t.Climbs scope rs ∧ ∀ x ∈ rs, x.id ≠ id := by
  refine .look_bind ((tells_checkParent ht _ scope).bind fun _ hparent => ?_)
  refine (tells_encloses ht h scope).bind fun inside hinside => ?_
  split
  · exact (reads_scopeText scope).tells.bind fun _ _ => .fail
  · rename_i houtside
    exact .pure ⟨hparent, hinside (Bool.of_not_eq_true houtside)⟩

/-- What is proposed for a scope that the symbol may move to passes all checks. What is premised was
checked before, and what is left are the name itself and its duplicates, which are looked at only if
the plan changes something. -/
theorem tells_proposeRename (ht : t.Sound) (s : Handle) (shown name : String) {scope : Scope}
    (p : Provenance) (hprovenance : t.checkProvenance name s.address s.kind p = .ok ()) (hparent : scope ≠ s.parent → t.Accepts s.kind scope)
    (houtside : scope ≠ s.parent → ∀ id, s.id? = some id →
      ∃ rs, t.Climbs scope rs ∧ ∀ x ∈ rs, x.id ≠ id) :
    Tells t (proposeRename s shown name scope p : Action σ _) fun plan? =>
      ∀ plan, plan? = some plan → Planned t s plan ∧ plan.scope = scope := by
  unfold proposeRename
  split
  · rename_i hdefault
    have hvetted := Table.Vetted.of_checks hprovenance fun h => absurd hdefault h
    rw [if_pos hdefault] at hvetted
    refine .pure fun plan hplan => ?_
    split at hplan
    · cases hplan
      exact ⟨⟨fun h => absurd hdefault h, hparent, houtside, hvetted⟩, rfl⟩
    · cases hplan
  · rename_i hchosen
    refine .ask_bind fun _ hname => ?_
    have hvetted := Table.Vetted.of_checks hprovenance fun _ => hname
    rw [if_neg hchosen] at hvetted
    dsimp only
    split
    · refine (tells_checkDuplicate ht s.address name scope s.kind s.id?).bind fun _ hfree => ?_
      refine .pure fun plan hplan => ?_
      cases hplan
      exact ⟨⟨fun _ => hfree, hparent, houtside, hvetted⟩, rfl⟩
    · exact .pure nofun

/-- A plan that is made passes all checks, and has the scope that was asked for. Whatever is asked
on the way only reads, so all checks speak of the same table. -/
theorem tells_planRename (ht : t.Sound) (h : HandleId) (name : String) (scope : Scope)
    (wanted : Provenance) :
    Tells t (planRename h name scope wanted : Action σ _) fun plan? =>
      ∀ plan, plan? = some plan → Planned t (t.handle h) plan ∧ plan.scope = scope := by
  refine .look_bind ((reads_nameOf h).tells.bind fun shown _ => .ask_bind fun _ _ => ?_)
  refine .look_bind (.ask_bind fun _ hprovenance => ?_)
  dsimp only
  split
  · refine (tells_checkMove ht h shown scope).bind fun _ hmove => ?_
    exact tells_proposeRename ht _ _ _ _ hprovenance (fun _ => hmove.1) fun _ => hmove.2
  · rename_i hsame
    have hscope : scope = (t.handle h).parent := (not_not.1 hsame).symm
    exact tells_proposeRename ht _ _ _ _ hprovenance (fun hne => absurd hscope hne) fun hne =>
      absurd hscope hne

end Action

/-! ## Plans hold -/

namespace Table

/-- Whether a name is free depends on the rows alone. So it is still free after handles have been
kept up. -/
theorem NameFree.congr {a : Address} {name : String} {scope : Scope} {tag : UInt8}
    {except? : Option SymbolId} (h : t.NameFree a name scope tag except?) (hrows : t'.rows = t.rows) :
    t'.NameFree a name scope tag except? := by
  intro x hx
  rw [hrows] at hx
  exact h x hx

/-- Whether a scope accepts a symbol depends on the rows and on the rules. That the scope is there,
and of which kind it is, is told by its row. -/
theorem Accepts.congr {k : Kind} {scope : Scope} (h : t.Accepts k scope)
    (hrows : t'.rows = t.rows) (hrules : t'.rules = t.rules) : t'.Accepts k scope := by
  cases scope with
  | global =>
    show t'.rules.acceptsParent k none = true
    rwa [hrules]
  | of id =>
    obtain ⟨r, k', hrow, hkind, hscope, haccepts⟩ := h
    rw [← row?_congr hrows] at hrow
    rw [← hrules] at haccepts
    exact ⟨r, k', hrow, hkind, hscope, haccepts⟩

/-- The way up from a scope depends on the rows alone. The induction is on the way. -/
theorem Climbs.congr {scope : Scope} {rs : List Row} (h : t.Climbs scope rs)
    (hrows : t'.rows = t.rows) : t'.Climbs scope rs := by
  induction h with
  | global => exact .global
  | lost h => exact .lost ((row?_congr hrows _).trans h)
  | step h _ ih => exact .step ((row?_congr hrows _).trans h) ih

end Table

/-- A plan still passes its checks after handles have been kept up. Between the plan and the write
the names of borrowers are asked for, which may refresh handles. Rows, rules and settings are the
same after it. -/
theorem Planned.of_upkeep {s : Handle} {plan : Rename} (h : Planned t s plan)
    (hpath : Path upkeep t t') : Planned t' s plan := by
  have hrows : t'.rows = t.rows := hpath.rows_eq_of_upkeep
  refine ⟨?_, ?_, ?_, h.vetted.congr hpath.sameFrame⟩
  · intro hp
    exact (h.free hp).congr hrows
  · intro hne
    exact (h.parent hne).congr hrows hpath.sameFrame.rules
  · intro hne id hid
    obtain ⟨rs, hclimbs, hids⟩ := h.outside hne id hid
    exact ⟨rs, hclimbs.congr hrows, hids⟩

namespace Action

/-- The row after a rename has the provenance that was planned, pinned or not. -/
theorem provenance_apply (plan : Rename) (r : Row) :
    (plan.apply r).provenance = plan.provenance :=
  Row.provenance_withProvenance ..

section
variable (hn : Heeds c notify)

include hn

/-- To tell of a borrower follows every course that the listener heeds. -/
theorem follows_announceBorrower (h : HandleId) (old : String) :
    Follows c (announceBorrower notify h old) :=
  .bind (follows_name h) fun _ => .bind (.look _) fun _ =>
    .bind (follows_current_of_follows h (.look _)) fun _ => follows_emit hn _ _ nofun

variable (hnote : c.Notes)

include hnote

/-- To tell of a name, and of those that borrow it, follows every such course on which names may be
noted. The name is asked of the store, and a refusal ends the action there. -/
theorem follows_announceName (h : HandleId) (key : Key) (a : Address) (old : String)
    (borrowers : List (HandleId × String)) :
    Follows c (announceName notify h key a old borrowers) := by
  refine .bind (.of_reads (reads_nameOf h)) fun new => ?_
  refine .bind (follows_record hnote nofun) fun _ => ?_
  refine .bind (follows_emit hn _ _ nofun) fun _ => ?_
  have hborrower : ∀ b : HandleId × String, Follows c (announceBorrower notify b.1 b.2) :=
    fun b => follows_announceBorrower hn b.1 b.2
  exact .forM hborrower borrowers

/-- That a symbol was stored is noted and told. The name that is told is the one that is shown at
that moment, which may be a borrowed one. -/
theorem follows_tellPromotion (h : HandleId) (id : SymbolId) (a : Address) (plan : Rename) : Follows c (do
      let name ← nameOf h
      change fun t => { t with journal := t.journal.record ⟨a, .stored id, .added, name⟩ }
      emit notify (.stored id) a .added
      if !plan.scope.isGlobal then
        emit notify (.stored id) a (.scopeChanged .global plan.scope)
      if name ≠ plan.oldName then
        emit notify (.stored id) a (.renamed plan.oldName name)) := by
  refine .bind (.of_reads (reads_nameOf h)) fun name => .bind (follows_record hnote nofun) fun _ => ?_
  refine .bind (follows_emit hn _ _ nofun) fun _ => ?_
  have hname : Follows c (if name ≠ plan.oldName then emit notify (.stored id) a (.renamed plan.oldName name)
      else pure ()) := by
    split
    · exact follows_emit hn _ _ nofun
    · exact .pure _
  dsimp only
  split
  · exact .bind (follows_emit hn _ _ nofun) fun _ => hname
  · exact hname

omit hn hnote in
/-- To gather those that borrow a name follows every course, as it only asks for names. -/
theorem follows_borrowers (h : HandleId) : Follows c (borrowers h : Action σ _) := by
  refine .bind (.look _) fun s => ?_
  split
  · exact .pure _
  · split
    · exact .pure _
    · exact .bind (.of_reads (.askStore _)) fun _ => .bind (.look _) fun _ => follows_lookupEach _

section
variable {into : Scope → Prop} {h : HandleId}

/-- A planned rename of a stored symbol is carried out in one write. Before the write handles are
kept up and after it the changes are told. The write itself is left to the course, which may ask
what row it is of. -/
theorem ends_carryOut (ht : t.Sound) (hready : t.IsReady h) {plan : Rename}
    (hplan : Planned t (t.handle h) plan) (hinto : plan.scope ≠ (t.handle h).parent → into plan.scope)
    (hc : ∀ t₁ t₂, Path upkeep t t₁ → t₁.Written into t₂ → c.rel t₁ t₂) :
    Ends t (carryOut notify h plan) fun _ t' => c.rel t t' := by
  refine .look_bind (Follows.ends_bind_upkeep ht (follows_borrowers h) fun bs t₁ hpath₁ ht₁ => ?_)
  refine Follows.ends_bind_upkeep ht₁ (.mapM follows_name bs) fun names t₂ hpath₂ ht₂ => ?_
  have hpath := hpath₁.trans hpath₂
  have hplan₂ : Planned t₂ (t₂.handle h) plan := by
    rw [hready.handle_eq hpath]
    exact hplan.of_upkeep hpath
  rw [← hready.handle_eq hpath] at hinto
  have hwritten : ∀ r b, (t₂.handle h).row = some r → t₂.store.backend.Puts (plan.apply r) b →
      c.rel t₂ (t₂.written h (plan.apply r) b) := by
    intro r b hrow hputs
    have hedits : t₂.Edits (Eq .write) (t₂.handle h) r (plan.apply r) :=
      .rename rfl plan hplan₂.free hplan₂.parent hplan₂.outside
    have hvetted := hplan₂.vetted
    rw [(ht₂.inOrder h).address r hrow] at hvetted
    rw [Handle.parent_of_row hrow] at hinto
    exact hc t₂ _ hpath (.edit hrow hedits (Classical.or_iff_not_imp_left.2 hinto) hputs (.apply hvetted)
      (hready.of_upkeep hpath))
  refine Follows.ends_bind ht₂ (ends_write ht₂ h hwritten fun _ => .refl) fun _ t₃ ht₃ => ?_
  have hname : Follows c (if plan.renames then
      announceName notify h (t.handle h).key (t.handle h).address plan.oldName (bs.zip names)
      else pure ()) := by
    split
    · exact follows_announceName hn hnote h _ _ _ _
    · exact .pure _
  dsimp only
  split
  · exact Follows.ends_bind ht₃ (follows_emit hn _ _ (by nofun) t₃ ht₃) fun _ => hname
  · exact hname t₃ ht₃

/-- A derived symbol of which a rename was planned is stored. The row is put, the handle gets it,
and the address is claimed, all of which are one write for the course. -/
theorem ends_promote (ht : t.Sound) (hready : t.IsReady h) (hrow : (t.handle h).row = none)
    {plan : Rename} (hplan : Planned t (t.handle h) plan)
    (hinto : plan.scope ≠ (t.handle h).parent → into plan.scope)
    (hc : ∀ t', t.Written into t' → c.rel t t') :
    Ends t (promote notify h plan) fun _ t' => c.rel t t' := by
  refine .look_bind ?_
  refine .drawRow ht.backend (fun id b hid hputs => ?_) (fun _ => .refl) fun _ => hc _ .draw
  generalize hfresh : Row.fresh id (t.handle h).kind (t.handle h).address plan.name plan.scope
    plan.provenance = row at hputs ⊢
  obtain ⟨hkey, -⟩ := (ht.inOrder h).derived hready.live hrow
  have hstores : t.Stores row b := by
    subst hfresh
    refine ⟨hid, hputs, fun hprovenance => ?_⟩
    have hfree := hplan.free fun h => hprovenance ((Row.ofBits_rank_and _).trans h)
    rwa [Handle.id?_of_derived hkey] at hfree
  have hparent := hplan.parent
  rw [Handle.parent_of_rowless hrow] at hparent hinto
  have hclaimed : c.rel t
      (((t.withBackend b).embody h row).claimPrimary (t.handle h).address id (t.handle h).kind) := by
    subst hfresh
    have hplaced (hlocated : (t.rules.capabilities (t.handle h).kind).located = true) :
        t.Placed (t.handle h).kind (Row.fresh id (t.handle h).kind (t.handle h).address plan.name plan.scope
          plan.provenance) :=
      hplan.vetted.placed rfl (Row.ofBits_rank_and _) fun hno => by cases hlocated.symm.trans hno
    exact hc _ (.promote hready.live hrow rfl rfl hstores hparent
      (Classical.or_iff_not_imp_left.2 hinto) (hplan.vetted.proper rfl rfl) hplaced)
  exact .change_bind (.change_bind (Follows.ends_from (follows_tellPromotion hn hnote h id _ plan) ht hclaimed))

/-- A rename stores a derived symbol or edits the row of a stored one, at a table at which handles
have been kept up and that of the symbol is ready. -/
theorem ends_rename (ht : t.Sound) (name : String) {scope : Scope} (p : Provenance)
    (hinto : ∀ t₁, Path upkeep t t₁ → t₁.IsReady h → scope ≠ (t₁.handle h).parent → into scope)
    (hc : ∀ t₁ t₂, Path upkeep t t₁ → t₁.Written into t₂ → c.rel t₁ t₂) :
    Ends t (rename notify h name scope p) fun _ t' => c.rel t t' := by
  refine .current ht h (fun _ => .refl) (fun _ _ hr => hr.rel ht) fun t₁ hr => ?_
  have ht₁ := hr.path.sound ht
  have hready := hr.isReady
  refine Ends.imp (R := fun _ t' => c.rel t₁ t') ?_ fun _ _ hrel => (hr.rel ht).trans hrel
  refine (tells_planRename ht₁ h name scope p).ends_bind (fun plan? hplan => ?_) fun _ => .refl
  split
  · exact .pure .refl
  · rename_i plan
    obtain ⟨hchecked, rfl⟩ := hplan plan rfl
    have hinto₁ := hinto t₁ hr.path hready
    refine .look_bind ?_
    split
    · rename_i hderived
      exact ends_promote hn hnote ht₁ hready (Handle.isDerived_iff.1 hderived).1 hchecked hinto₁
        fun t' => hc t₁ t' hr.path
    · exact ends_carryOut hn hnote ht₁ hready hchecked hinto₁ fun t₂ t₃ hpath =>
        hc t₂ t₃ (hr.path.trans hpath)

/-- To set a scope follows a course on which rows may be written into the scope that was asked for.
That this is a new one for the symbol may be used then. -/
theorem ends_setScope (ht : t.Sound) {scope : Scope}
    (hinto : ∀ t₁, Path upkeep t t₁ → t₁.IsReady h → scope ≠ (t₁.handle h).parent → into scope)
    (hc : ∀ t₁ t₂, Path upkeep t t₁ → t₁.Written into t₂ → c.rel t₁ t₂) :
    Ends t (setScope notify h scope) fun _ t' => c.rel t t' := by
  refine .current ht h (fun _ => .refl) (fun _ _ hr => hr.rel ht) fun t₁ hr => ?_
  refine Ends.imp (R := fun _ t' => c.rel t₁ t') ?_ fun _ _ hrel => (hr.rel ht).trans hrel
  refine (reads_nameOf h).ends_bind (fun name => .look_bind ?_) fun _ => .refl
  exact ends_rename hn hnote (hr.path.sound ht) name _ (fun t₂ hpath => hinto t₂ (hr.path.trans hpath))
    fun t₂ t₃ hpath => hc t₂ t₃ (hr.path.trans hpath)

end

/-- A symbol that only gets another name stays in its scope. The premise `hc` is for writes into no
other scope than the one in which the symbol lies. -/
theorem follows_setName (hc : c.WritesInto fun _ => False) (h : HandleId) (name : String)
    (p : Provenance) : Follows c (setName notify h name p) := by
  refine follows_current h fun t ht hready => .look_bind ?_
  refine ends_rename hn hnote ht name p (fun t₁ hpath _ hne => ?_) fun t₁ t₂ hpath => hc (hpath.sound ht)
  rw [hready.handle_eq hpath] at hne
  exact hne rfl

end

section
variable (hn : Heeds c notify) (hc : c.Writes)

include hn hc

/-- A rename follows a course on which rows may be written into all scopes. -/
theorem follows_rename (h : HandleId) (name : String) (scope : Scope) (p : Provenance) :
    Follows c (rename notify h name scope p) :=
  fun _ ht => ends_rename hn hc.note ht name p (fun _ _ _ _ => trivial) fun _ _ hpath =>
    hc.write (hpath.sound ht)

/-- To set a scope follows a course on which rows may be written into all scopes. -/
theorem follows_setScope (h : HandleId) (scope : Scope) : Follows c (setScope notify h scope) :=
  fun _ ht => ends_setScope hn hc.note ht (fun _ _ _ _ => trivial) fun _ _ hpath =>
    hc.write (hpath.sound ht)

end

end Action

end SymbolTable
