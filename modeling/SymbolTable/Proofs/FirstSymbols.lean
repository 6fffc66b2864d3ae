import SymbolTable.Proofs.Freshness
import SymbolTable.Proofs.Primaries
import SymbolTable.Proofs.Promotion

/-!
# The first symbol at an address

A label or a function that is created where no other one lies is primary there. For that, nobody may
be designated at its address, and a row that someone else takes out of the store leaves its
designation behind. So a chronicle may say at which addresses designations may lapse
(`Move.lapses`). Everywhere else every designation is backed by a row throughout the chronicle
(`Chronicle.tidy`), as the moves of the table pass it on, take it along or give it up together with
the row. Where one has lapsed, the next symbol is not designated, although nobody else could be
(`Chronicle.first_symbols_are_primary`, `Chronicle.first_symbol_is_not_primary`). Listeners make no
moves here: one that relocates a symbol in the middle of its deletion leaves a designation behind as
well, at an address that no lapse accounts for.
-/

namespace SymbolTable

open SymbolTable.Action
open Table (Path upkeep pruning)

variable {σ : Type} {t t₁ t' : Table} {may may' : Deed → Prop} {lapsing : Address → Prop} {notify : Listener σ}
  {a : Address} {h : HandleId} {draft : Draft}

namespace Table

/-! ## Tidy tables -/

/-- Symbols that may be primary do not move alone, the store works, ids are drawn before rows are
stored under them, and designations are backed. -/
structure Tidy (lapsing : Address → Prop) (t : Table) : Prop where
  rules : t.rules.Steady
  works : t.store.Works
  foreseen : t.Foreseen fun _ => False
  backed : t.Backed lapsing

/-- In a table that has just been opened, nothing is designated. The rules have to be steady, and
the store has to work. -/
theorem Tidy.of_isNew {rules : Rules} (hnew : t.IsNew rules) (hrules : rules.Steady) (hworks : t.store.Works) :
    t.Tidy lapsing := by
  refine ⟨hnew.rules_eq ▸ hrules, hworks, hnew.foreseen, fun a id hprimary => ?_⟩
  rw [hnew.facts_eq] at hprimary
  cases hprimary

namespace Tidy

variable (htidy : t.Tidy lapsing)

include htidy

/-- Ids are drawn before rows are stored under them. It is kept here since rows are taken out behind
the table's back, after which the table is not exact any more. -/
theorem le_drawn (r : Row) (hr : r ∈ t.rows) : r.id.val.toNat ≤ t.drawn :=
  (htidy.foreseen.rows r hr).resolve_right id

/-- A table stays tidy along steps through the table that plan no outages, if designations are
backed at the end of them. -/
theorem of_path (hpath : Path may t t') (hs : t.Sound) (hlt : t'.drawn < UInt64.size - 1) (hintrude : ¬ may .intrude)
    (hplan : ¬ may .plan) (hb : t'.Backed lapsing) : t'.Tidy lapsing where
  rules := hpath.sameFrame.rules ▸ htidy.rules
  works := hpath.works hplan htidy.works
  foreseen := hpath.foreseen hintrude hs hlt htidy.foreseen
  backed := hb

/-- Someone else takes a row out. The designation it leaves behind lapses, and this is allowed by
`hlapsing`. -/
theorem taken {id : SymbolId} {b : Store.Backend} (hs : t.Sound) (hremoves : t.store.backend.Removes id b)
    (hlapsing : ∀ a, t.facts.primaryAt a = some id → lapsing a) : (t.withBackend b).Tidy lapsing where
  rules := htidy.rules
  works := htidy.works
  foreseen := htidy.foreseen.removes hremoves
  backed := htidy.backed.taken hs htidy.le_drawn hremoves hlapsing

/-- A row is stored, and its symbol claims its address. The facts are those from before the row was
stored, and its id is not yet among the designated ones, since it was drawn last. -/
theorem backed_stores {row : Row} {b : Store.Backend} {k : Kind} (hs : t.Sound) (hstores : t.Stores row b)
    (hlt : b.drawn < UInt64.size - 1) (hk : row.kind? = some k) (hs₁ : t₁.Sound) (hrules : t₁.rules = t.rules)
    (hbackend : t₁.store.backend = b) (hfacts : t₁.facts = t.facts) :
    (t₁.claimPrimary row.address row.id k).Backed lapsing := by
  have hrow : row ∈ t₁.rows := by
    rw [rows, hbackend]
    exact (hstores.puts.mem_rows row).2 (.inl rfl)
  exact (htidy.backed.stores hs htidy.le_drawn hstores hlt hrules hbackend hfacts).claimPrimary hs₁ hrow hk

/-- Designations stay backed when a row is written in any of the ways in which this is done in one
go. There are edits in place, which change no designation, and derived symbols that are stored,
which claim their address. -/
theorem written {into : Scope → Prop} (ht : t.Reliable) (hlt : t'.drawn < UInt64.size - 1) (hw : t.Written into t') :
    t'.Backed lapsing := by
  cases hw with
  | draw => exact htidy.backed.of_rows_eq rfl ht.sound.rows_draw ht.sound.drawn_draw rfl
  | edit hrow hedits _ hputs _ hready =>
    exact htidy.backed.edited ht.sound (ht.row?_eq hready hrow) hedits.id_eq hedits.tag_eq (hedits.address_eq nofun)
      hputs
  | @promote h row b hlive hrow htag haddress hstores hparent =>
    have hstep : Step (Eq .write) t ((t.withBackend b).embody h row) :=
      .promote rfl h hlive hrow htag haddress hstores hparent
    have hdrawn : b.drawn < UInt64.size - 1 := by
      rw [claimPrimary_eq] at hlt
      exact hlt
    exact htidy.backed_stores ht.sound hstores hdrawn (Kind.ofTag?_eq_some_iff.2 htag) (hstep.sound ht.sound)
      rfl rfl rfl

/-- Designations stay backed when a symbol is stored and claims its address. The new row has an id
that was never drawn, so nobody is designated under it by a lapse. -/
theorem created (hs : t.Sound) (hlt : t'.drawn < UInt64.size - 1) (hc : t.Created t') : t'.Backed lapsing := by
  cases hc with
  | draw => exact htidy.backed.of_rows_eq rfl hs.rows_draw hs.drawn_draw rfl
  | @insert k row b htag hstores hparent =>
    have hstep : Step (Eq .write) t (t.withFresh row b) := .insert rfl k htag hstores hparent
    have hdrawn : b.drawn < UInt64.size - 1 := by
      rwa [claimPrimary_eq, ← drawn_withFresh t row b] at *
    exact htidy.backed_stores hs hstores hdrawn (Kind.ofTag?_eq_some_iff.2 htag) (hstep.sound hs)
      hstep.sameFrame.rules (backend_withFresh t row b) (facts_withFresh t row b)
  | @create k row b s htag hstores hparent _ _ hofRow =>
    have hstep : Step (Eq .write) t ((t.withFresh row b).adopt (.stored row.id) s) :=
      .create rfl k htag hstores hparent hofRow
    have hdrawn : b.drawn < UInt64.size - 1 := by
      rwa [claimPrimary_eq, ← drawn_withFresh t row b] at *
    exact htidy.backed_stores hs hstores hdrawn (Kind.ofTag?_eq_some_iff.2 htag) (hstep.sound hs)
      hstep.sameFrame.rules (backend_withFresh t row b) (facts_withFresh t row b)

end Tidy

/-- Reliable tables that are tidy go over into such tables, until versions or ids run out. -/
def KeepsTidy (lapsing : Address → Prop) (t t' : Table) : Prop :=
  t.Reliable → t'.writes < UInt64.size → t'.drawn < UInt64.size - 1 → t.Tidy lapsing → t'.Tidy lapsing

/-- What keeps the designations backed where ids and versions remain keeps tables tidy. The other
parts are kept by all such steps. -/
theorem KeepsTidy.of_path (hpath : Path may t t') (hintrude : ¬ may .intrude) (hplan : ¬ may .plan)
    (hkeep : t.Reliable → t'.drawn < UInt64.size - 1 → t.Tidy lapsing → t'.Backed lapsing) : KeepsTidy lapsing t t' :=
  fun ht _ hlt htidy => htidy.of_path hpath ht.sound hlt hintrude hplan (hkeep ht hlt htidy)

end Table

/-! ## Courses of tidy tables -/

/-- The course on which reliable tables stay tidy. -/
def Course.tidy (lapsing : Address → Prop) (may : Deed → Prop) : Course where
  rel t t' := Path may t t' ∧ Table.KeepsTidy lapsing t t'
  refl _ := ⟨.refl, fun _ _ _ htidy => htidy⟩
  trans h h' := by
    refine ⟨h.1.trans h'.1, fun ht hwrites hlt htidy => ?_⟩
    have hs := h.1.sound ht.sound
    have hwrites₁ := Nat.lt_of_le_of_lt (h'.1.precedes hs).writes_le hwrites
    have hlt₁ := Nat.lt_of_le_of_lt (h'.1.drawn_le hs) hlt
    exact h'.2 (ht.of_path h.1 hwrites₁) hwrites hlt (h.2 ht hwrites₁ hlt₁ htidy)
  path h := h.1.mono fun _ _ => trivial
  keepsUp {t t'} _ htended := by
    have hpath : Path upkeep t t' := .single htended.stride.step
    have hrows : t'.rows = t.rows := hpath.rows_eq_of_upkeep
    have hdrawn : t.drawn ≤ t'.drawn := Nat.le_of_eq (congrArg (·.backend.drawn) hpath.upkeep.1).symm
    exact ⟨hpath.mono fun _ => False.elim, .of_path hpath not_false not_false fun _ _ htidy =>
      htidy.backed.of_rows_eq hpath.sameFrame.rules hrows hdrawn htended.stride.facts⟩

namespace Course

/-- Steps of deeds that are allowed are on the course if designations are backed at the end of
them. -/
theorem tidy_of_path (hpath : Path may' t t') (hmay : ∀ d, may' d → may d) (hintrude : ¬ may' .intrude)
    (hplan : ¬ may' .plan)
    (hkeep : t.Reliable → t'.drawn < UInt64.size - 1 → t.Tidy lapsing → t'.Backed lapsing) :
    (tidy lapsing may).rel t t' :=
  ⟨hpath.mono hmay, .of_path hpath hintrude hplan hkeep⟩

/-- What stands around the rows and the handles changes, and designations are backed after that. -/
theorem tidy_of_beside (hbeside : t.Beside t') (hkeep : t.Reliable → t.Tidy lapsing → t'.Backed lapsing) :
    (tidy lapsing may).rel t t' := by
  have hpath : Path upkeep t t' := .single (.aside hbeside)
  exact tidy_of_path hpath (fun _ => False.elim) not_false not_false fun ht _ => hkeep ht

theorem aloof_tidy : (tidy lapsing may).Aloof :=
  fun _ _ _ hbeside hfacts => tidy_of_beside hbeside fun _ htidy => htidy.backed.of_beside hbeside hfacts

/-- Symbols may be stored, named and marked on this course where writing is allowed. Their paths are
those of claims, on which tidy tables are kept by what is shown above. -/
theorem tidy_writes (hmay : may .write) : (tidy lapsing may).Writes where
  write {t t'} hs hw := by
    have hpath : Path (Eq .write) t t' := hw.claimed.path
    exact tidy_of_path hpath (fun _ hd => hd ▸ hmay) nofun nofun fun ht hlt htidy => htidy.written ht hlt hw
  create {t t'} hs hc := by
    have hpath : Path (Eq .write) t t' := hc.claimed.path
    exact tidy_of_path hpath (fun _ hd => hd ▸ hmay) nofun nofun fun ht hlt htidy => htidy.created ht.sound hlt hc
  note := aloof_tidy.deaf.notes

/-- Stored symbols that may be primary may be designated on this course. -/
theorem tidy_designates : (tidy lapsing may).Designates :=
  fun hs hready hrow hable => tidy_of_beside ⟨rfl, rfl, rfl, rfl, rfl, rfl⟩ fun ht htidy =>
    htidy.backed.setPrimary (.of_handle hs hrow (ht.row?_eq hready hrow) hable)

/-- Symbols may get another address on this course where this is allowed: they take their
designation along. -/
theorem tidy_allows_readdress (hmay : may .readdress) : (tidy lapsing may).Allows .readdress := by
  intro t t' h a hs hready hmoved
  refine tidy_of_path hmoved.path (fun _ hd => hd ▸ hmay) nofun nofun fun ht _ htidy => ?_
  exact htidy.backed.readdressed hs htidy.rules (fun r hrow => ht.row?_eq hready hrow) hmoved

/-- Derived symbols may be moved on this course where this is allowed. They are designated nowhere,
so no designation depends on them. -/
theorem tidy_allows_relocate (hmay : may .relocate) : (tidy lapsing may).Allows .relocate := by
  intro t h a hs hready hrow
  have hpath : Path (Eq .relocate) t (t.transferred h a) := Table.path_transferred rfl hready.live hrow
  exact tidy_of_path hpath (fun _ hd => hd ▸ hmay) nofun nofun fun _ _ htidy =>
    htidy.backed.of_rows_eq rfl rfl (Nat.le_refl _) rfl

/-- Where rows are only taken out in between, the row that is taken out at last is the one that the
handle had. Only rows are taken out while the members are deleted, so the copy that was made at the
beginning is still right about the address. -/
theorem tidy_removes : (tidy lapsing pruning).Removes where
  deaf := aloof_tidy.deaf
  mark {t} h deleting _ := by
    have hpath : Path (Eq .remove) t (t.updateHandle h fun s => { s with deleting := deleting }) :=
      .single (.mark rfl h deleting)
    exact tidy_of_path hpath (fun _ hd => .inl hd.symm) (by simp) (by simp) fun _ _ htidy => htidy.backed
  removal {t t₁ t₂ h r} hs hready hrow hrel hkey hremoval := by
    have hpath : Path (Eq .remove) t₁ t₂ := hremoval.path hkey
    refine ⟨hrel.1.trans (hpath.mono fun _ hd => .inl hd.symm), fun ht hwrites hlt htidy => ?_⟩
    have hs₁ := hrel.1.sound hs
    have hlt₁ := Nat.lt_of_le_of_lt (hpath.drawn_le hs₁) hlt
    have htidy₁ := hrel.2 ht (Nat.lt_of_le_of_lt (hpath.precedes hs₁).writes_le hwrites) hlt₁ htidy
    have haddress (x : Row) (hx : t₁.row? r.id = some x) : x.address = r.address :=
      congrArg Row.address (hrel.1.row_eq_of_pruning hs (ht.row?_eq hready hrow) hx)
    exact htidy₁.of_path hpath hs₁ hlt (by simp) (by simp) (htidy₁.backed.removal hs₁ htidy₁.works haddress hremoval)

theorem rel.tidy_mono (hrel : (tidy lapsing may').rel t t') (hmay : ∀ d, may' d → may d) :
    (tidy lapsing may).rel t t' :=
  ⟨hrel.1.mono hmay, hrel.2⟩

end Course

/-! ## Designations that lapse -/

/-- A move that no listener makes, and that goes through the table or takes out a row behind its
back. The symbol of this row is designated only where designations may lapse. No move is allowed
that is nested in another one, so the listeners of a chronicle of these moves record what they are
told and leave the table alone. -/
def Move.lapses (lapsing : Address → Prop) (nested : Bool) (t : Table) : Move → Prop
  | .put _ => False
  | .take id => nested = false ∧ ∀ a, t.facts.primaryAt a = some id → lapsing a
  | _ => nested = false

/-- No move that lapses is nested in another one. So in such a chronicle listeners make no moves,
and only what stands around changes while they are told. -/
theorem Move.not_lapses (t : Table) (m : Move) : ¬ m.lapses lapsing true t := by
  cases m <;> simp [lapses]

/-- A move of this kind stays on the course, whether it goes through the table or takes a row out
behind its back. A row that is taken out behind the table's back leaves its designation behind,
which the condition on the address excuses. All other moves are followed along the course. -/
theorem Move.ends_tidy (ht : t.Sound) {m : Move} (hm : m.lapses lapsing false t) (hrecords : notify.Records) :
    Ends t (m.action notify) fun _ t' => (Course.tidy lapsing fun _ => True).rel t t' := by
  have hheeds {may : Deed → Prop} : Heeds (.tidy lapsing may) notify := hrecords.heeds Course.aloof_tidy.logs
  have hpermitted (hthrough : m.goesThrough) (hdelete : ∀ k, m ≠ .edit k .delete) :
      m.Permitted (Course.tidy lapsing fun _ => True).Allows t :=
    .of_goesThrough hthrough (Course.tidy_writes trivial) (fun k heq => absurd heq (hdelete k))
      (fun _ _ _ _ => Course.tidy_allows_readdress trivial) (fun _ _ _ _ _ => Course.tidy_allows_relocate trivial)
  cases m with
  | put => exact hm.elim
  | take id =>
    refine Ends.rel_map (.takeRow ht.backend (fun b hremoves => ?_) fun _ _ => .refl)
    exact ⟨.single (.intrudeTake trivial hremoves), fun ht _ _ htidy => htidy.taken ht.sound hremoves hm.2⟩
  | edit k e =>
    by_cases hdelete : e = .delete
    · subst hdelete
      have hdelete := follows_delete (c := .tidy lapsing pruning) hheeds Course.tidy_removes k t ht
      exact Ends.rel_map (Ends.rel_map (hdelete.imp fun _ _ hrel => hrel.tidy_mono fun _ _ => trivial))
    · refine Move.ends_rel hheeds Course.tidy_designates ht (hpermitted trivial fun k heq => ?_)
      cases heq
      exact hdelete rfl
  | create | query | search => exact Move.ends_rel hheeds Course.tidy_designates ht (hpermitted trivial nofun)

/-- Tables stay tidy where designations lapse only as they may. A chronicle consists of stretches
that leave the table still and of moves, and both are on the course. -/
theorem Chronicle.tidy {s₀ s : Situated σ} (hrun : Chronicle (Move.lapses lapsing) false s₀ s)
    (hs : s₀.table.Sound) : (Course.tidy lapsing fun _ => True).rel s₀.table s.table := by
  refine hrun.preserves Move.not_lapses (I := (Course.tidy lapsing fun _ => True).rel s₀.table)
    (fun t t' hstill hrel => ?_) (fun t m notify hm hrecords hrel => ?_) .refl
  · exact hrel.trans (.of_still Course.aloof_tidy.logs (hrel.sound hs) hstill)
  · exact (Move.ends_tidy (hrel.sound hs) hm hrecords).imp fun _ _ hrest => hrel.trans hrest

/-! ## New symbols -/

/-- The symbol of the handle was created from a draft, with this id. Its handle is ready, and it has
claimed its address. -/
structure Table.Founds (t : Table) (d : Draft) (id : SymbolId) (h : HandleId) (t' : Table) : Prop where
  ready : t'.IsReady h
  id?_eq : (t'.handle h).id? = some id
  kind_eq : (t'.handle h).kind = d.kind
  address_eq : (t'.handle h).address = d.address
  facts_eq : t'.facts = (t.claimPrimary d.address id d.kind).facts
  frame : t.SameFrame t'

/-- A symbol that was created is what its draft says as long as nobody has acted on the table since.
What a listener may do here changes neither rows nor handles nor designations. -/
theorem Table.Founds.of_near {d : Draft} {id : SymbolId} (hf : t.Founds d id h t₁) (hnear : t₁.Near t') :
    t.Founds d id h t' := by
  have hhandle := hnear.beside.handle h
  have hframe : t₁.SameFrame t' := ⟨hnear.beside.rules, hnear.beside.settings, hnear.beside.closed⟩
  refine ⟨⟨?_, ?_⟩, ?_, ?_, ?_, hnear.facts.trans hf.facts_eq, hf.frame.trans hframe⟩
  · rw [hhandle]
    exact hf.ready.live
  · rw [hhandle, hnear.beside.store]
    exact hf.ready.current
  · rw [hhandle]
    exact hf.id?_eq
  · rw [hhandle]
    exact hf.kind_eq
  · rw [hhandle]
    exact hf.address_eq

/-- A handle that is made of the row that was just stored is ready. It has just seen the store, and
it is of the id, the kind and the address of the draft. -/
theorem Table.founds_adopt {d : Draft} {id : SymbolId} {row : Row} (j : Journal)
    (hfacts : t₁.facts = (t.claimPrimary d.address id d.kind).facts) (hframe : t.SameFrame t₁) :
    t.Founds d id t₁.handles.length { t₁.adopt (.stored id)
      ⟨d.kind, .stored id, some row, d.address, t₁.store.modificationCount, false, false⟩ with journal := j } := by
  have hhandle := (t₁.handle_adopt (.stored id) ⟨d.kind, .stored id, some row, d.address,
    t₁.store.modificationCount, false, false⟩ t₁.handles.length).trans (if_pos rfl)
  exact ⟨⟨congrArg Handle.deleted hhandle, .inr (congrArg Handle.seenAt hhandle)⟩, congrArg Handle.id? hhandle,
    congrArg Handle.kind hhandle, congrArg Handle.address hhandle, hfacts, hframe.trans ⟨rfl, rfl, rfl⟩⟩

/-- Which symbol is designated depends on the rules and on who is. So it does not matter whether the
claim is made before or after the handles have changed. -/
theorem Table.facts_claimPrimary (hrules : t'.rules = t.rules) (hfacts : t'.facts = t.facts) (a : Address)
    (id : SymbolId) (k : Kind) : (t'.claimPrimary a id k).facts = (t.claimPrimary a id k).facts := by
  unfold claimPrimary
  rw [hrules, hfacts]
  split <;> simp [hfacts]

/-- A symbol that may be primary is so from the beginning where nobody is designated. The claim is
taken at the table before, so what is said is decided by who was designated there then. -/
theorem Table.Founds.isPrimary_eq {d : Draft} {id : SymbolId} (hf : t.Founds d id h t')
    (hable : (t.rules.capabilities d.kind).primary = true) (hne : t.facts.primaryAt d.address ≠ some id) :
    t'.isPrimary h = decide (t.facts.primaryAt d.address = none) := by
  have hclaims : t'.facts.primaryAt d.address =
      if t.facts.primaryAt d.address = none then some id else t.facts.primaryAt d.address := by
    rw [hf.facts_eq, claimPrimary, hable, Bool.true_and]
    simp only [Option.isNone_iff_eq_none]
    split
    · exact (Facts.primaryAt_setPrimary ..).trans (if_pos rfl)
    · rfl
  unfold isPrimary
  rw [hf.id?_eq, hf.kind_eq, hf.address_eq, hf.frame.rules]
  dsimp only
  rw [hable, hclaims, Bool.true_and]
  split <;> simp [*]

/-- If a creation answers, the symbol of the handle has the row that was drafted, its handle is
ready, and it has claimed its address. -/
theorem Action.ends_create_founds (ht : t.Sound) (hnear : ∀ e (x : Situated σ), x.table.Near (notify e x).table)
    (draft : Draft) :
    Ends t (create notify draft) fun answer t' => ∀ h, answer = .ok h → ∃ id,
      (∃ b, t.Stores ((draft.settled t.rules).row id) b ∧ b.drawn = t'.drawn) ∧
        t.Founds (draft.settled t.rules) id h t' := by
  refine .look_bind ?_
  generalize draft.settled t.rules = d
  refine (tells_checkDraft ht d).ends_bind (fun _ hchecked => ?_) fun _ _ => nofun
  refine .drawRow ht.backend (fun id b hid hputs => ?_) (fun _ _ => nofun) fun _ _ => nofun
  have hstores : t.Stores (d.row id) b := by
    refine ⟨hid, hputs, fun hprovenance => ?_⟩
    rw [d.provenance_row] at hprovenance
    rw [d.name_row id hprovenance]
    exact hchecked.2.1 hprovenance
  have hframe := Table.sameFrame_withFresh t (d.row id) b
  have hclaims := Table.facts_claimPrimary hframe.rules (Table.facts_withFresh t (d.row id) b) d.address id d.kind
  have hbeside := Table.beside_claimPrimary (t.withFresh (d.row id) b) d.address id d.kind
  refine .change_bind (.change_bind ?_)
  change Ends ((t.withFresh (d.row id) b).claimPrimary d.address id d.kind) _ _
  generalize (t.withFresh (d.row id) b).claimPrimary d.address id d.kind = t₁ at hclaims hbeside
  refine (reads_displayName _).ends_bind (fun shown => .look_bind (.seq (.conclude ?_))) fun _ _ => nofun
  cases hs : Handle.ofRow (d.row id) t₁.store.modificationCount with
  | error fault => exact nofun
  | ok s =>
    obtain ⟨k, hk, rfl⟩ := Handle.eq_of_ofRow hs
    cases hk.symm.trans (Kind.ofTag?_eq_some_iff.2 (rfl : (d.row id).tag = d.kind.tag))
    refine .ok (.look_bind (.change_bind (.seq (.emit fun x hx => .ok (.pure fun h hh => ?_)))))
    obtain rfl := Except.ok.inj hh
    have hframe₁ : t.SameFrame t₁ := hframe.trans ⟨hbeside.rules, hbeside.settings, hbeside.closed⟩
    have hfounds : t.Founds d id t₁.handles.length x.table := hx ▸ Table.founds_adopt _ hclaims hframe₁
    have hdrawn : x.table.drawn = b.drawn := by
      rw [hx, ← Table.drawn_withFresh t (d.row id) b]
      exact hbeside.drawn_eq
    have htold := hnear ⟨.stored id, d.address, .added⟩ x
    exact ⟨id, ⟨b, hstores, (htold.beside.drawn_eq.trans hdrawn).symm⟩, hfounds.of_near htold⟩

/-! ## First symbols -/

/-- Under the usual rules, what may be primary lies where its draft says. Kinds that may be primary
are located ones, so their address is not replaced. There are few kinds, and all are tried. -/
theorem Draft.address_settled_of_primary (hable : (Rules.standard.capabilities draft.kind).primary = true) :
    (draft.settled .standard).address = draft.address := by
  have hlocated : (Rules.standard.capabilities draft.kind).located = true := by
    revert hable
    cases draft.kind <;> decide
  unfold settled
  rw [hlocated]
  rfl

/-- **First symbols are primary.** Whatever was done through a table under the usual rules since it
was opened empty, and whatever rows were taken out behind its back: where a label or a function is
created and no other one is stored at its address, the new symbol is primary if nobody is designated
there, and a symbol that is designated there is gone from the store. So it is primary wherever no
designation may lapse. The store works, and neither versions nor ids run out. Listeners record,
during the run as well as during the creation, and do not act on the table. -/
theorem Chronicle.first_symbols_are_primary {s₀ s s' : Situated σ} (hnew : s₀.table.IsNew .standard)
    (hworks : s₀.table.store.Works) (hrun : Chronicle (Move.lapses lapsing) false s₀ s)
    (hwrites : s.table.writes < UInt64.size) (hrecords : notify.Records)
    (hcreate : (create notify draft).run s = (.ok h, s')) (hdrawn : s'.table.drawn < UInt64.size - 1)
    (hable : (Rules.standard.capabilities draft.kind).primary = true)
    (hfirst : ∀ id, ¬ s.table.Eligible draft.address id) :
    (¬ lapsing draft.address → s'.AnswersPrimary h true) ∧
      s'.AnswersPrimary h (s.table.facts.primaryAt draft.address = none) ∧
        ∀ id, s.table.facts.primaryAt draft.address = some id → s.table.Extinct id := by
  have hrel := hrun.tidy hnew.sound
  have hs := hrel.sound hnew.sound
  have hframe := hrel.path.sameFrame
  have hrules : s.table.rules = .standard := hframe.rules.trans hnew.rules_eq
  have hopen : s.table.closed = false := hframe.closed.trans hnew.closed_eq
  have hends := ends_create_founds hs hrecords.near draft s rfl
  rw [hcreate] at hends
  obtain ⟨id, ⟨b, hstores, hb⟩, hfounds⟩ := hends h rfl
  rw [hrules] at hstores hfounds
  have haddress := Draft.address_settled_of_primary hable
  have hreliable : s₀.table.Reliable :=
    ⟨hnew.sound, hnew.coherent, Nat.lt_of_le_of_lt (hrel.path.precedes hnew.sound).writes_le hwrites, hnew.closed_eq⟩
  have htidy : s.table.Tidy lapsing :=
    hrel.2 hreliable hwrites (Nat.lt_of_le_of_lt (hstores.drawn_le hs) (hb ▸ hdrawn))
      (.of_isNew hnew Rules.steady_standard hworks)
  -- who is designated here is not stored, as nobody is who may be
  have hlapsed {i : SymbolId} (hprimary : s.table.facts.primaryAt draft.address = some i) :
      lapsing draft.address ∧ s.table.Extinct i :=
    (htidy.backed _ i hprimary).resolve_left (hfirst i)
  have hne : s.table.facts.primaryAt draft.address ≠ some id := fun hprimary =>
    hstores.ne_id hs (hb ▸ hdrawn) (hlapsed hprimary).2.1 rfl
  have hanswers : s'.AnswersPrimary h (s.table.facts.primaryAt draft.address = none) := by
    have hisPrimary := hfounds.isPrimary_eq (hrules ▸ hable) (haddress ▸ hne)
    rw [haddress] at hisPrimary
    rw [← hisPrimary]
    exact Situated.answersPrimary_of_isReady (hfounds.frame.closed.trans hopen) hfounds.ready
  refine ⟨fun hkept => ?_, hanswers, fun i hprimary => (hlapsed hprimary).2⟩
  have hnone : s.table.facts.primaryAt draft.address = none :=
    Option.eq_none_iff_forall_ne_some.2 fun i hprimary => hkept (hlapsed hprimary).1
  simpa [hnone] using hanswers

/-- A label is deleted, and another one is taken out at another address. A function comes where the
first one was. The function is primary from the beginning, as the deletion gave up its designation,
and the lapse is at another address. -/
theorem Chronicle.first_symbols_are_primary_of_function :
    let s₀ : Situated Unit := ⟨.empty default .standard, (), 0⟩
    let go (s : Situated Unit) (m : Move) := ((m.action Listener.recorder).run s).2
    let s₁ := [.create ⟨"a", .label, .ram 16, .global, .userDefined, 0, 0, none⟩,
      .create ⟨"b", .label, .ram 32, .global, .userDefined, 0, 0, none⟩, .edit 0 .delete].foldl go s₀
    let s := go s₁ (.take ⟨2, by decide⟩)
    let draft : Draft := ⟨"f", .function, .ram 16, .global, .userDefined, 0, 0, none⟩
    let s' := ((create Listener.recorder draft).run s).2
    s₀.table.IsNew .standard ∧ s₀.table.store.Works ∧ Chronicle (Move.lapses (· = .ram 32)) false s₀ s ∧
      s.table.writes < UInt64.size ∧ (Listener.recorder : Listener Unit).Records ∧
      (create Listener.recorder draft).run s = (.ok 2, s') ∧ s'.table.drawn < UInt64.size - 1 ∧
      (Rules.standard.capabilities .function).primary = true ∧ (∀ id, ¬ s.table.Eligible (.ram 16) id) ∧
      s.table.facts.primaryAt (.ram 32) = some ⟨2, by decide⟩ ∧ s'.AnswersPrimary 2 true := by
  intro s₀ go s₁ s draft s'
  have hnew : s₀.table.IsNew .standard := .memory _ _ _
  have hworks : s₀.table.store.Works := fun _ _ _ => rfl
  have hrun₁ : Chronicle (Move.lapses (· = .ram 32)) false s₀ s₁ :=
    .move (.move (.move .refl rfl .recorder) rfl .recorder) rfl .recorder
  have hlapses : ∀ a, s₁.table.facts.primaryAt a = some ⟨2, by decide⟩ → a = .ram 32 := by
    intro a hprimary
    -- nobody else is designated any more
    have hentries : s₁.table.facts.primaries.entries = [(.ram 32, ⟨2, by decide⟩)] := by decide +kernel
    rw [Facts.primaryAt, Dict.get?, hentries] at hprimary
    by_contra hne
    simp [Ne.symm hne] at hprimary
  have hrun : Chronicle (Move.lapses (· = .ram 32)) false s₀ s := .move hrun₁ ⟨rfl, hlapses⟩ .recorder
  have hrows : s.table.rows = [] := by decide +kernel
  have hfirst : ∀ id, ¬ s.table.Eligible (.ram 16) id := by
    rintro id ⟨r, -, hget, -⟩
    have hmem := Table.mem_of_row? hget
    rw [hrows] at hmem
    cases hmem
  have hok : ((create Listener.recorder draft).run s).1 = .ok 2 := by decide +kernel
  have hs' : ((create Listener.recorder draft).run s).2 = s' := rfl
  have hdrawn : s'.table.drawn < UInt64.size - 1 := by decide +kernel
  clear_value s'
  have hcreate : (create Listener.recorder draft).run s = (.ok 2, s') := Prod.ext hok hs'
  have hwrites : s.table.writes < UInt64.size := by decide +kernel
  have hprimary := Chronicle.first_symbols_are_primary hnew hworks hrun hwrites Listener.records_recorder hcreate hdrawn
    rfl hfirst
  exact ⟨hnew, hworks, hrun, hwrites, Listener.records_recorder, hcreate, hdrawn, rfl, hfirst, by decide +kernel,
    hprimary.1 (by decide)⟩

/-- The row of a label is taken out, which stays designated. The next label at its address is not
primary, although no other symbol is stored. -/
theorem Chronicle.first_symbol_is_not_primary :
    let s₀ : Situated Unit := ⟨.empty default .standard, (), 0⟩
    let go (s : Situated Unit) (m : Move) := ((m.action Listener.recorder).run s).2
    let s := [.create ⟨"a", .label, .ram 16, .global, .userDefined, 0, 0, none⟩, .take ⟨1, by decide⟩].foldl go s₀
    let creating : Action Unit HandleId :=
      create Listener.recorder ⟨"b", .label, .ram 16, .global, .userDefined, 0, 0, none⟩
    let s' := (creating.run s).2
    s₀.table.IsNew .standard ∧ s₀.table.store.Works ∧ Chronicle (Move.lapses fun _ => True) false s₀ s ∧
      s.table.rows = [] ∧ (creating.run s).1 = .ok 1 ∧ s'.AnswersPrimary 1 false := by
  intro s₀ go s creating s'
  have hnew : s₀.table.IsNew .standard := .memory _ _ _
  have hworks : s₀.table.store.Works := fun _ _ _ => rfl
  have hrun : Chronicle (Move.lapses fun _ => True) false s₀ s :=
    .move (.move .refl rfl .recorder) ⟨rfl, fun _ _ => trivial⟩ .recorder
  have hready : s'.table.IsReady 1 := ⟨by decide +kernel, .inr (by decide +kernel)⟩
  have hprimary : s'.table.isPrimary 1 = false := by decide +kernel
  have hopen : s'.table.closed = false := by decide +kernel
  exact ⟨hnew, hworks, hrun, by decide +kernel, by decide +kernel,
    hprimary ▸ Situated.answersPrimary_of_isReady hopen hready⟩

end SymbolTable
