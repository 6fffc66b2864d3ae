import SymbolTable.Proofs.Chronicle

/-!
# Owners of references

A reference may belong to a certain symbol. When the row of a symbol is taken out, its references
are handed to the primary symbol, but only those that lead to where it lies then: the index is asked
by destination. A symbol that changed its address has left its references behind, and they go on to
name it when it is gone (`Annals.owners_vanish`).

So the owner of a reference is stored, or it was removed at another address than the one to which
the reference leads (`Annals.owners_stay_or_leave`). This is kept on a course (`Course.owning`), so
it does not matter what the listeners do in the middle of a move. Between the row that is taken out
and its references nobody acts, but the store may fail to say who is primary next, and therefore it
has to work.
-/

namespace SymbolTable

open SymbolTable.Action
open Table (Path Step upkeep)

variable {σ : Type} {t t₁ t' : Table} {may : Deed → Prop} {notify : Listener σ} {h : HandleId}
  {id : SymbolId} {a : Address}

namespace Table

/-! ## Owned references -/

/-- The listener was told that the symbol was removed, at another address than `a`. -/
def RemovedOff (t : Table) (id : SymbolId) (a : Address) : Prop :=
  ∃ e ∈ t.log, e.key = .stored id ∧ e.change.sort = .removed ∧ e.address ≠ a

/-- The owner of a reference is stored, or it was removed elsewhere. -/
def Owned (t : Table) : Prop :=
  ∀ a, ∀ x ∈ t.references.into a, ∀ id, x.owner = .symbol id → t.row? id ≠ none ∨ t.RemovedOff id a

/-- Events stay in the log, so a removal that was told has been told for good. -/
theorem RemovedOff.mono (hremoved : t.RemovedOff id a) (hlog : t.log ⊆ t'.log) : t'.RemovedOff id a := by
  obtain ⟨e, he, hevent⟩ := hremoved
  exact ⟨e, hlog he, hevent⟩

/-- No row is taken out, and references change at most in that some are taken away. -/
theorem Owned.mono (ho : t.Owned) (hinto : ∀ a, t'.references.into a ⊆ t.references.into a)
    (hstays : ∀ id, t.row? id ≠ none → t'.row? id ≠ none) (hlog : t.log ⊆ t'.log) : t'.Owned := by
  intro a x hx id howner
  exact (ho a x (hinto a hx) id howner).imp (hstays id) fun hremoved => hremoved.mono hlog

/-- The row of a symbol is taken out, and its references at its address are handed over. Those that
lead elsewhere go on to name it. It was removed off their destination then, as the event in the log
says where it was. -/
theorem Owned.departs {r : Row} {name : String} (ho : t.Owned) (hs : t.Sound) (hremoval : t.Removal h r t₁) :
    ((t₁.bury (Departure.mk r name)).logged (Departure.mk r name).event).Owned := by
  obtain ⟨b, hremoves, hbeside⟩ := hremoval.exists_release
  have hrow? (id : SymbolId) : t₁.row? id = if id = r.id then none else t.row? id := by
    rw [row?_congr (t := t.withBackend b) hbeside.rows_eq]
    exact row?_removes hs.backend hremoves id
  have hreferences : t₁.references = t.references := by cases hremoval <;> rfl
  intro a x hx id howner
  have hother (hx : x ∈ t.references.into a) (hne : id ≠ r.id) : t₁.row? id ≠ none ∨
      ((t₁.bury (Departure.mk r name)).logged (Departure.mk r name).event).RemovedOff id a := by
    rw [hrow?, if_neg hne]
    refine (ho a x hx id howner).imp_right fun hremoved => hremoved.mono fun e he => ?_
    rw [← hremoval.log_eq] at he
    exact List.mem_append_left _ he
  have hx : x ∈ ((t₁.references.retarget r.address r.id .primary).2).into a := hx
  rw [hreferences, References.retarget, References.into_withInto] at hx
  split at hx
  · rename_i ha
    obtain ⟨y, hy, rfl⟩ := List.mem_map.1 hx
    rw [References.handOver] at howner hother
    split at howner
    · cases howner
    · rename_i hnot
      rw [if_neg hnot, ha] at hother
      exact ha ▸ hother hy fun hid => hnot (hid ▸ howner)
  · rename_i ha
    by_cases hid : id = r.id
    · subst hid
      exact .inr ⟨_, List.mem_append_right _ (List.mem_singleton_self _), rfl, rfl, Ne.symm ha⟩
    · exact hother hx hid

/-! ## References that are added and taken away -/

/-- A reference is added that belongs to the primary symbol or to one that lies at its destination,
or the references between two addresses are taken away. -/
inductive Cites (t : Table) : Table → Prop where
  | add {x : Reference}
      (howner : ∀ id, x.owner = .symbol id → (t.row? id).map (·.address) = some x.target) :
      Cites t { t with references := t.references.add x }
  | remove (source target : Address) :
      Cites t { t with references := (t.references.remove source target).2 }

/-- The references stay owned when one is added or when some are taken away, if who adds one knows a
symbol at its destination. -/
theorem Owned.cites (ho : t.Owned) (hcites : t.Cites t') : t'.Owned := by
  cases hcites with
  | @add x howner =>
    intro a y hy id hid
    rw [References.add, References.into_withInto] at hy
    split at hy
    · rename_i ha
      rcases List.mem_append.1 hy with hy | hy
      · exact ho a y (ha ▸ hy) id hid
      · obtain rfl := List.mem_singleton.1 hy
        obtain ⟨r, hr, -⟩ := Option.map_eq_some_iff.1 (howner id hid)
        exact .inl (hr ▸ Option.some_ne_none r)
    · exact ho a y hy id hid
  | remove source target =>
    refine ho.mono (fun a y hy => ?_) (fun _ hrow => hrow) fun _ he => he
    rw [References.remove, References.into_withInto] at hy
    split at hy
    · rename_i ha
      exact ha ▸ (List.mem_filter.1 hy).1
    · exact hy

/-! ## The course -/

/-- A step that takes no row out leaves something under every id under which there is something. The
proof goes through the steps. A row is put where there was none, or in the place of one. -/
theorem Step.row?_ne_none (hstep : Step may t t') (hremove : ¬ may .remove) (hintrude : ¬ may .intrude)
    (hs : t.Sound) (hrow : t.row? id ≠ none) : t'.row? id ≠ none := by
  have hput {b : Store.Backend} {row : Row} (hrow? : (t.withBackend b).row? id =
      if id = row.id then some row else t.row? id) : (t.withBackend b).row? id ≠ none := by
    rw [hrow?]
    split
    · exact Option.some_ne_none _
    · exact hrow
  cases hstep with
  | aside hbeside => rwa [row?_congr hbeside.rows_eq]
  | plan | adopt | refresh | vanish | relocate => exact hrow
  | draw => rwa [row?_congr hs.rows_draw]
  | @insert _ k row b _ hstores | @create _ k row b s _ hstores =>
    have hrows : (t.withFresh row b).rows = (t.withBackend b).rows := rows_withFresh t row b
    exact row?_congr hrows id ▸ hput (hstores.row? hs id)
  | promote _ _ _ _ _ _ hstores => exact hput (hstores.row? hs id)
  | edit _ _ _ hputs => exact hput (row?_puts hs.backend hputs id)
  | mark hmay | takeOut hmay => exact absurd hmay hremove
  | intrudePut hmay | intrudeTake hmay => exact absurd hmay hintrude

/-- A symbol that is stored is still so after any number of steps that take no row out. The
induction is on the steps. -/
theorem Path.row?_ne_none (hpath : Path may t t') (hremove : ¬ may .remove) (hintrude : ¬ may .intrude)
    (hs : t.Sound) (hrow : t.row? id ≠ none) : t'.row? id ≠ none := by
  induction hpath with
  | refl => exact hrow
  | tail hbefore hstep ih => exact hstep.row?_ne_none hremove hintrude (Path.sound hbefore hs) ih

/-- Where the store works, references that are owned stay so. -/
def KeepsOwners (t t' : Table) : Prop :=
  t.Sound → t.store.Works → t.Owned → t'.store.Works ∧ t'.Owned

/-- References stay owned along steps that take no row out and leave the references alone. Each
owner had a row and has one still, or its removal was logged, and the log only grows. -/
theorem KeepsOwners.of_path (hpath : Path may t t') (hremove : ¬ may .remove) (hintrude : ¬ may .intrude)
    (hplan : ¬ may .plan) (hreferences : t'.references = t.references) (hlog : t.log ⊆ t'.log) :
    t.KeepsOwners t' := by
  intro hs hworks ho
  refine ⟨hpath.works hplan hworks, ho.mono (fun a => ?_) (fun id => ?_) hlog⟩
  · rw [hreferences]
    exact fun _ hx => hx
  · exact hpath.row?_ne_none hremove hintrude hs

end Table

namespace Course

open Table (KeepsOwners)

/-- The course on which owned references stay so, where the store works. -/
def owning : Course where
  rel t t' := Path (fun _ => True) t t' ∧ t.KeepsOwners t'
  refl _ := ⟨.refl, fun _ hworks ho => ⟨hworks, ho⟩⟩
  trans h h' := by
    refine ⟨h.1.trans h'.1, fun hs hworks ho => ?_⟩
    obtain ⟨hworks₁, ho₁⟩ := h.2 hs hworks ho
    exact h'.2 (h.1.sound hs) hworks₁ ho₁
  path h := h.1
  keepsUp {t t'} _ htended := by
    have hpath : Path upkeep t t' := .single htended.stride.step
    refine ⟨hpath.mono fun _ => False.elim, .of_path hpath not_false not_false not_false htended.references ?_⟩
    rw [htended.log]
    exact fun _ he => he

/-- Steps that take no row out are on the course, as long as they change no reference. -/
theorem owning_of_path (hpath : Path may t t') (hremove : ¬ may .remove) (hintrude : ¬ may .intrude)
    (hplan : ¬ may .plan) (hreferences : t'.references = t.references) (hlog : t'.log = t.log) :
    owning.rel t t' :=
  ⟨hpath.mono fun _ _ => trivial, .of_path hpath hremove hintrude hplan hreferences (hlog ▸ fun _ he => he)⟩

/-- What stands around the rows and the handles changes, but not the references, and the log is not
cut. -/
theorem owning_of_beside (hbeside : t.Beside t') (hreferences : t'.references = t.references)
    (hlog : t.log ⊆ t'.log) : owning.rel t t' := by
  have hpath : Path upkeep t t' := .single (.aside hbeside)
  exact ⟨hpath.mono fun _ => False.elim, .of_path hpath not_false not_false not_false hreferences hlog⟩

/-- What touches neither rows nor references is on the course. -/
theorem owning_of_still (hstill : t.Still t') (hreferences : t'.references = t.references) :
    owning.rel t t' :=
  owning_of_beside hstill.beside hreferences (hstill.log ▸ fun _ he => he)

/-- References may be added and taken away on this course. One that is added belongs to the primary
symbol or to one that lies where it leads. -/
theorem owning_of_cites (hcites : t.Cites t') : owning.rel t t' := by
  have hbeside : t.Beside t' := by cases hcites <;> exact ⟨rfl, rfl, rfl, rfl, rfl, rfl⟩
  refine ⟨.single (.aside hbeside), fun _ hworks ho => ⟨?_, ho.cites hcites⟩⟩
  rw [hbeside.store]
  exact hworks

/-- The listener may be told of something on this course. The log only gets longer, and it is only
asked what is in it. -/
theorem owning_logged (t : Table) (e : Event) : owning.rel t (t.logged e) :=
  owning_of_beside ⟨rfl, rfl, rfl, rfl, rfl, rfl⟩ rfl (List.subset_append_left _ _)

/-- Rows may be written on this course, for none is taken out. The references are not touched by a
write, and a derived symbol that is stored owned none. -/
theorem owning_writes : owning.Writes where
  write t t' _ hw := by
    have hsame : t'.references = t.references ∧ t'.log = t.log := by
      cases hw with
      | draw | edit => exact ⟨rfl, rfl⟩
      | promote => rw [Table.claimPrimary_eq]; exact ⟨rfl, rfl⟩
    exact owning_of_path hw.claimed.path nofun nofun nofun hsame.1 hsame.2
  create {t t'} _ hc := by
    have hsame : t'.references = t.references ∧ t'.log = t.log := by
      cases hc with
      | draw => exact ⟨rfl, rfl⟩
      | insert | create =>
        rw [Table.claimPrimary_eq]
        unfold Table.withFresh Table.dropDerived
        split <;> exact ⟨rfl, rfl⟩
    exact owning_of_path hc.claimed.path nofun nofun nofun hsame.1 hsame.2
  note _ _ _ _ := owning_of_beside ⟨rfl, rfl, rfl, rfl, rfl, rfl⟩ rfl fun _ he => he

/-- Symbols may be designated on this course: a reference that belongs to the primary symbol has no
owner of its own. -/
theorem owning_designates : owning.Designates :=
  fun _ _ _ _ => owning_of_beside ⟨rfl, rfl, rfl, rfl, rfl, rfl⟩ rfl fun _ he => he

/-- Symbols may get another address on this course. The references at the old one stay behind, with
their owner. -/
theorem owning_allows_readdress : owning.Allows .readdress := by
  intro t t' h a _ _ hmoved
  have hsame : t'.references = t.references ∧ t'.log = t.log := by
    cases hmoved with
    | alone => exact ⟨rfl, rfl⟩
    | along => rw [Table.movePrimary_eq]; exact ⟨rfl, rfl⟩
  exact owning_of_path hmoved.path nofun nofun nofun hsame.1 hsame.2

/-- Derived symbols may be moved on this course, since no reference is owned by one. -/
theorem owning_allows_relocate : owning.Allows .relocate := by
  intro t h a _ hready hrow
  have hpath : Path (Eq .relocate) t (t.transferred h a) := Table.path_transferred rfl hready.live hrow
  exact owning_of_path hpath nofun nofun nofun rfl rfl

/-- Whoever is being deleted, a row that is taken out leaves its references to the primary symbol.
The references to other addresses that it owns are those of which the theorem says that they are
left behind. -/
theorem owning_nests : owning.Nests fun _ => owning where
  weaken _ hrel := hrel
  departs {t t₁ t₂ h r} _ _ _ _ hrel hkey hdeparts := by
    refine hrel.trans ⟨(hdeparts.path hkey).mono fun _ _ => trivial, fun hs hworks ho => ?_⟩
    refine ⟨(hdeparts.path hkey).works nofun hworks, ?_⟩
    cases hdeparts with
    | unnoted _ hfails => exact absurd hfails hworks.not_mayFail
    | noted hremoval name => exact ho.departs hs hremoval
  unmark {t t' h} _ _ hrel := by
    have hmark (t : Table) (deleting : Bool) :
        owning.rel t (t.updateHandle h fun s => { s with deleting := deleting }) := by
      have hstep : Step (Eq .remove) t _ := .mark rfl h deleting
      exact ⟨.single (hstep.mono fun _ _ => trivial), fun _ hworks ho => ⟨hworks, ho⟩⟩
    exact ((hmark t true).trans hrel).trans (hmark t' false)

end Course

/-- A move through the table stays on the course, deletions included, if the listener does. There is
one case for each sort of move, and all but deletions take no row out. -/
theorem Move.ends_owning {m : Move} (hm : m.goesThrough) (hn : Heeds .owning notify) (ht : t.Sound) :
    Ends t (m.action notify) fun _ t' => Course.owning.rel t t' := by
  by_cases hdelete : ∃ h, m = .edit h .delete
  · obtain ⟨h, rfl⟩ := hdelete
    have hfollows : Follows .owning (delete notify h) :=
      .bind (.look _) fun _ => follows_deleteWithin Course.owning_nests hn.removed _ h
    exact Ends.rel_map (Ends.rel_map (hfollows t ht))
  · refine Move.ends_rel hn Course.owning_designates ht (.of_goesThrough hm Course.owning_writes ?_ ?_ ?_)
    · exact fun h heq => absurd ⟨h, heq⟩ hdelete
    · exact fun _ _ _ _ => Course.owning_allows_readdress
    · exact fun _ _ _ _ _ => Course.owning_allows_relocate

/-! ## Annals -/

/-- A chronicle that tells of the references, too. Whoever adds one knows a symbol at its
destination. -/
inductive Annals : Situated σ → Situated σ → Prop where
  | refl {s : Situated σ} : Annals s s
  | still {s s₁ s₂ : Situated σ} (hrun : Annals s s₁) (hstill : s₁.table.Still s₂.table)
      (hreferences : s₂.table.references = s₁.table.references) : Annals s s₂
  | cite {s s₁ s₂ : Situated σ} (hrun : Annals s s₁) (hcites : s₁.table.Cites s₂.table) : Annals s s₂
  /-- Once a change is logged, the listener of a move goes on with the annals. -/
  | move {s s₁ : Situated σ} {notify : Listener σ} {m : Move} (hrun : Annals s s₁) (hthrough : m.goesThrough)
      (hnotify : ∀ e x, Annals (x.logged e) (notify e x)) : Annals s ((m.action notify).run s₁).2

variable {s₀ s : Situated σ}

/-- A listener that only logs makes no moves, and these are annals. -/
theorem Annals.recorder (e : Event) (s : Situated σ) : Annals (s.logged e) (Listener.recorder e s) :=
  .refl

/-- Annals stay on the course, from every sound table. The induction is on the annals, what
listeners do included. References that are added or taken away by themselves are a case of their
own, as they are no moves. -/
theorem Annals.rel (hrun : Annals s₀ s) (hs : s₀.table.Sound) : Course.owning.rel s₀.table s.table := by
  induction hrun with
  | refl => exact .refl
  | still _ hstill hreferences ih => exact (ih hs).trans (Course.owning_of_still hstill hreferences)
  | cite _ hcites ih => exact (ih hs).trans (Course.owning_of_cites hcites)
  | @move s s₁ notify m _ hthrough _ ih ihnotify =>
    have hrel := ih hs
    have hheeds : Heeds .owning notify := by
      refine ⟨fun e x hx _ => ?_, fun e x hx _ => ihnotify e x ⟨hx.backend, hx.inOrder⟩⟩
      exact (Course.owning_logged x.table e).trans (ihnotify e x ⟨hx.backend, hx.inOrder⟩)
    exact hrel.trans (Move.ends_owning hthrough hheeds (hrel.sound hs) _ rfl)

/-- **The owner of a reference stays, or it has left.** Whatever is done to a table that was opened
empty, and whatever its listeners do in the middle of that: where the store works and references are
given only to symbols that lie at their destinations, a reference that belongs to a certain symbol
belongs to one that is stored, or to one that was removed at another address, to which it must have
moved. Rows are changed through the table alone. -/
theorem Annals.owners_stay_or_leave {rules : Rules} (hnew : s₀.table.IsNew rules)
    (hworks : s₀.table.store.Works) (hrun : Annals s₀ s) :
    ∀ a, ∀ x ∈ s.table.references.into a, ∀ id, x.owner = .symbol id → s.table.row? id ≠ none ∨
      ∃ e ∈ s.table.log, e.key = .stored id ∧ e.change.sort = .removed ∧ e.address ≠ a := by
  have howned : s₀.table.Owned := by
    intro a x hx
    rw [hnew.references_eq] at hx
    cases hx
  exact ((hrun.rel hnew.sound).2 hnew.sound hworks howned).2

/-- Two variables have a reference each. When the listener is told that the first one is removed, it
gives the second one another address and another reference, which belongs to it there. After both
are deleted, only the reference that was left behind belongs to a symbol that is gone. -/
theorem Annals.owners_stay_or_leave_of_moved :
    let s₀ : Situated Unit := ⟨.empty default .standard, (), 0⟩
    let new (name : String) (a : UInt64) : Move :=
      .create ⟨name, .globalVariable, .ram a, .global, .userDefined, 0, 0, none⟩
    let jump (a : UInt64) (id : SymbolId) : Reference := ⟨.ram 0, .ram a, .jump, .symbol id⟩
    let cite (s : Situated Unit) (x : Reference) : Situated Unit :=
      { s with table := { s.table with references := s.table.references.add x } }
    let quiet (s : Situated Unit) (m : Move) := ((m.action Listener.recorder).run s).2
    let meddler : Listener Unit := fun e x =>
      if e.key = .stored ⟨1, by decide⟩ ∧ e.change.sort = .removed then
        quiet (x.logged e) (.edit 1 (.setAddress (.ram 48)))
      else x.logged e
    let go (s : Situated Unit) (m : Move) := ((m.action meddler).run s).2
    let s₁ := cite (cite ([new "x" 16, new "y" 32].foldl go s₀) (jump 16 ⟨1, by decide⟩))
      (jump 32 ⟨2, by decide⟩)
    let s := go (cite (go s₁ (.edit 0 .delete)) (jump 48 ⟨2, by decide⟩)) (.edit 1 .delete)
    s₀.table.IsNew .standard ∧ s₀.table.store.Works ∧ Annals s₀ s ∧ s.table.rows = [] ∧
      ([16, 32, 48].flatMap fun a => (s.table.references.into (.ram a)).map (·.owner)) =
        [.primary, .symbol ⟨2, by decide⟩, .primary] ∧
      ∀ a, ∀ x ∈ s.table.references.into a, ∀ id, x.owner = .symbol id → s.table.row? id ≠ none ∨
        ∃ e ∈ s.table.log, e.key = .stored id ∧ e.change.sort = .removed ∧ e.address ≠ a := by
  intro s₀ new jump cite quiet meddler go s₁ s
  have hnew : s₀.table.IsNew .standard := .memory _ _ _
  have hworks : s₀.table.store.Works := fun _ _ _ => rfl
  have hmeddler (e : Event) (x : Situated Unit) : Annals (x.logged e) (meddler e x) := by
    show Annals _ (if e.key = _ ∧ _ then _ else _)
    split
    · exact .move (m := .edit 1 (.setAddress (.ram 48))) .refl trivial Annals.recorder
    · exact .refl
  have hcites {s : Situated Unit} (a : UInt64) (id : SymbolId)
      (hlies : (s.table.row? id).map (·.address) = some (.ram a)) : s.table.Cites (cite s (jump a id)).table := by
    refine .add fun i hi => ?_
    obtain rfl : id = i := Owner.symbol.inj hi
    exact hlies
  have hgoes {s : Situated Unit} (m : Move) (hrun : Annals s₀ s) (hthrough : m.goesThrough) :
      Annals s₀ (go s m) := .move hrun hthrough hmeddler
  have hcreated : Annals s₀ ([new "x" 16, new "y" 32].foldl go s₀) :=
    hgoes (new "y" 32) (hgoes (new "x" 16) .refl trivial) trivial
  have hrun₁ : Annals s₀ s₁ :=
    .cite (.cite hcreated (hcites 16 _ (by decide +kernel))) (hcites 32 _ (by decide +kernel))
  have hdeleted : Annals s₀ (go s₁ (.edit 0 .delete)) := hgoes (.edit 0 .delete) hrun₁ trivial
  have hrun : Annals s₀ s :=
    hgoes (.edit 1 .delete) (.cite hdeleted (hcites 48 _ (by decide +kernel))) trivial
  exact ⟨hnew, hworks, hrun, by decide +kernel, by decide +kernel,
    Annals.owners_stay_or_leave hnew hworks hrun⟩

/-- A label to which a reference belongs is relocated and then deleted. The reference belongs to it
still. The label was told as removed at another address than the one to which the reference
leads. -/
theorem Annals.owners_vanish :
    let id : SymbolId := ⟨1, by decide⟩
    let s₀ : Situated Unit := ⟨.empty default .standard, (), 0⟩
    let label : Move := .create ⟨"a", .label, .ram 16, .global, .userDefined, 0, 0, none⟩
    let jump : Reference := ⟨.ram 0, .ram 16, .jump, .symbol id⟩
    let go (s : Situated Unit) (m : Move) := ((m.action Listener.recorder).run s).2
    let s₁ := go s₀ label
    let s₂ : Situated Unit :=
      { s₁ with table := { s₁.table with references := s₁.table.references.add jump } }
    let s₃ := go s₂ (.edit 0 (.relocate (.ram 16) (.ram 32)))
    let s₄ := go s₃ (.edit 0 .delete)
    s₀.table.IsNew .standard ∧ s₀.table.store.Works ∧ Annals s₀ s₄ ∧
      ((delete Listener.recorder 0).run s₃).1 = .ok true ∧
      jump ∈ s₄.table.references.into (.ram 16) ∧ s₄.table.row? id = none := by
  intro id s₀ label jump go s₁ s₂ s₃ s₄
  have hcites : s₁.table.Cites s₂.table := .add (x := jump) fun i hi => by
    obtain rfl : id = i := Owner.symbol.inj hi
    show (s₁.table.row? id).map (·.address) = some (.ram 16)
    decide
  have hgoes {s : Situated Unit} (m : Move) (hrun : Annals s₀ s) (hthrough : m.goesThrough) :
      Annals s₀ (go s m) := .move hrun hthrough Annals.recorder
  have hcited : Annals s₀ s₂ := .cite (hgoes label .refl trivial) hcites
  have hrun : Annals s₀ s₄ :=
    hgoes (.edit 0 .delete) (hgoes (.edit 0 (.relocate (.ram 16) (.ram 32))) hcited trivial) trivial
  exact ⟨.memory _ _ _, fun _ _ _ => rfl, hrun, by decide +kernel, by decide +kernel, by decide +kernel⟩

end SymbolTable
